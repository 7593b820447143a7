/-
Sums that fit in their cells.

A cell has eight bits, and cells are added in two places: the adder adds the low
nibbles of its arguments, and the program counter is moved on by one.  Both sums
are masked afterwards, so a sum that went beyond its cell would not show in any
register.  It is looked for on its own here: each operation has a form that
checks its sums and has no outcome if one of them does not fit.

* `Command.checked?` carries out any command with its sums checked;
* `checked?_of_bounded`: where the registers hold nibbles, every sum fits and the
  checked form is the plain one;
* `cells_never_overflow` is about every history of commands on a machine that a
  host puts together: the registers hold nibbles after it, and no further command
  adds beyond a cell.

The check is not idle: a program counter of 255, which a host can only read from
elsewhere, cannot be moved on.
-/
import TD4.Assembly.Draft
import TD4.Cpu.Command
import TD4.Proofs.Cpu.Step

namespace TD4

/-- The sum of two cells, if it fits in a cell. -/
def Cell.sum? (x y : UInt8) : Option UInt8 :=
  if x.toNat + y.toNat < UInt8.size then some (x + y) else none

/-- The adder, its sum checked. -/
def Nibble.add? (x y : UInt8) : Option (UInt8 × Bool) :=
  (Cell.sum? (low x) (low y)).map fun sum => (low sum, decide (0x0F < sum))

/-- The adder never goes beyond a cell, whatever its arguments hold. -/
theorem Nibble.add?_eq_some (x y : UInt8) : add? x y = some (add x y) := by
  have hfits : (low x).toNat + (low y).toNat < UInt8.size := by
    have hx := toNat_low_lt x
    have hy := toNat_low_lt y
    show _ < 256
    omega
  rw [add?, Cell.sum?, if_pos hfits]
  rfl

namespace Registers

variable {r : Registers}

/-! ### Registers -/

/-- Move the program counter to the next address, the sum checked. -/
def advancePc? (r : Registers) : Option Registers :=
  (Cell.sum? r.pc 1).map fun next => { r with pc := Nibble.low next }

/-- The effect of an operation, its sums checked. -/
def perform? (r : Registers) (op : Operation) (imm : UInt8) : Option Registers :=
  match op with
  | .addA => do
    let sum ← Nibble.add? r.a imm
    ((r.setA sum.1).captureCarry sum.2).advancePc?
  | .movAB => (r.setA r.b).advancePc?
  | .inA => (r.setA r.input).advancePc?
  | .movA => (r.setA imm).advancePc?
  | .movBA => (r.setB r.a).advancePc?
  | .addB => do
    let sum ← Nibble.add? r.b imm
    ((r.setB sum.1).captureCarry sum.2).advancePc?
  | .inB => (r.setB r.input).advancePc?
  | .movB => (r.setB imm).advancePc?
  | .outB => do
    let sum ← Nibble.add? r.b imm
    ((r.setOutput sum.1).captureCarry sum.2).advancePc?
  | .out => (r.setOutput imm).advancePc?
  | .jnc => if r.carry then r.advancePc? else some (r.setPc imm)
  | .jmp => some (r.setPc imm)

/-- The registers after an edit, its sum checked. -/
def Edit.checked? : Edit → Registers → Option Registers
  | .advance, r => r.advancePc?
  | edit, r => some (edit.apply r)

theorem advancePc?_of_ne (h : r.pc ≠ 255) : r.advancePc? = some r.advancePc := by
  have hfits : r.pc.toNat + (1 : UInt8).toNat < UInt8.size := by
    have hlt := r.pc.toNat_lt
    have hne : r.pc.toNat ≠ (255 : UInt8).toNat := fun heq => h (UInt8.toNat_inj.mp heq)
    change r.pc.toNat ≠ 255 at hne
    show r.pc.toNat + 1 < 256
    omega
  rw [advancePc?, Cell.sum?, if_pos hfits]
  rfl

example : ({ zero with pc := 255 } : Registers).advancePc? = none := by decide

/-- An operation moves the program counter on from where it was, so this is the only
place where its sums can be too large. -/
theorem perform?_of_ne (h : r.pc ≠ 255) (op : Operation) (imm : UInt8) :
    r.perform? op imm = some (r.perform op imm) := by
  cases op with
  | addA =>
    rw [perform?, Nibble.add?_eq_some]
    exact advancePc?_of_ne h
  | movAB => exact advancePc?_of_ne h
  | inA => exact advancePc?_of_ne h
  | movA => exact advancePc?_of_ne h
  | movBA => exact advancePc?_of_ne h
  | addB =>
    rw [perform?, Nibble.add?_eq_some]
    exact advancePc?_of_ne h
  | inB => exact advancePc?_of_ne h
  | movB => exact advancePc?_of_ne h
  | outB =>
    rw [perform?, Nibble.add?_eq_some]
    exact advancePc?_of_ne h
  | out => exact advancePc?_of_ne h
  | jnc =>
    rw [perform?, perform]
    split
    · exact advancePc?_of_ne h
    · rfl
  | jmp => rfl

theorem Edit.checked?_of_ne (h : r.pc ≠ 255) (edit : Edit) : edit.checked? r = some (edit.apply r) := by
  cases edit with
  | advance => exact advancePc?_of_ne h
  | _ => rfl

theorem pc_clockCarry (r : Registers) : r.clockCarry.pc = r.pc := by
  rw [clockCarry_eq]

theorem Bounded.pc_ne (h : r.Bounded) : r.pc ≠ 255 := by
  intro heq
  have hle := h.pc
  rw [heq] at hle
  exact absurd hle (by decide)

end Registers

namespace Cpu

variable {cpu : Cpu}

/-! ### Machines -/

/-- Execute an opcode with its operand, all sums checked. -/
def execute? (cpu : Cpu) (opcode operand : UInt8) : Option (Except Fault Unit × Cpu) :=
  if 0x0F < operand then
    some (.error (.immediateOverflow operand), cpu)
  else
    let regs := cpu.regs.clockCarry
    match Operation.ofOpcode? opcode with
    | none => some (.error (.invalidOpcode opcode), { cpu with regs })
    | some op => (regs.perform? op operand).map fun regs => (.ok (), { cpu with regs })

/-- Fetch and execute the instruction at the program counter, all sums checked. -/
def step? (cpu : Cpu) : Option (Except Fault Unit × Cpu) :=
  let byte := cpu.rom.fetch cpu.regs.pc
  if isSelfJump cpu.regs.pc byte then
    some (.error .halted, { cpu with status := .halted })
  else
    match cpu.execute? (Instruction.split byte).1 (Instruction.split byte).2 with
    | none => none
    | some (.ok (), next) => some (.ok (), { next with status := .ready, cycles := next.cycles + 1 })
    | some (.error fault, next) => some (.error fault, { next with status := .errored })

/-- Step a number of times, or until a step fails, all sums checked. -/
def steps? : Nat → Cpu → Option (Except Fault Unit × Cpu)
  | 0, cpu => some (.ok (), cpu)
  | n + 1, cpu =>
    match cpu.step? with
    | none => none
    | some (.ok (), next) => steps? n next
    | some (.error fault, next) => some (.error fault, next)

/-- Step up to a limit, all sums checked. -/
def runLimited? (cpu : Cpu) (limit : UInt64) : Option (Except Fault UInt64 × Cpu) :=
  (cpu.steps? limit.toNat).map fun (result, next) => (result.map fun _ => limit, next)

/-- Carry out a command, all sums checked. -/
def Command.checked? : Command → Cpu → Option (Except Fault (Option Nat) × Cpu)
  | .step, cpu => cpu.step?.map fun (result, next) => (result.map fun _ => none, next)
  | .execute opcode operand, cpu =>
    (cpu.execute? opcode operand).map fun (result, next) => (result.map fun _ => none, next)
  | .run limit, cpu =>
    (cpu.runLimited? limit).map fun (result, next) => (result.map fun n => some n.toNat, next)
  | .registers edit, cpu =>
    (edit.checked? cpu.regs).map fun regs => (.ok (edit.answer cpu.regs), { cpu with regs })
  | command, cpu => some (command.apply cpu)

theorem execute?_of_ne (h : cpu.regs.pc ≠ 255) (opcode operand : UInt8) :
    cpu.execute? opcode operand = some (cpu.execute opcode operand) := by
  have hclock : cpu.regs.clockCarry.pc ≠ 255 := by
    rwa [Registers.pc_clockCarry]
  rw [execute?, execute]
  split
  · rfl
  · rcases Operation.ofOpcode? opcode with _ | op
    · rfl
    · simp only [Registers.perform?_of_ne hclock]
      rfl

theorem step?_of_ne (h : cpu.regs.pc ≠ 255) : cpu.step? = some cpu.step := by
  simp only [step?, step, execute?_of_ne h]
  split
  · rfl
  · rcases cpu.execute _ _ with ⟨_ | _, next⟩
    · rfl
    · rfl

/-- The program counter has to fit at each of the steps, and it does since the
registers keep to nibbles. -/
theorem steps?_of_bounded (h : cpu.regs.Bounded) (n : Nat) :
    cpu.steps? n = some (cpu.steps n) := by
  induction n generalizing cpu with
  | zero => rfl
  | succ n ih =>
    have hnext := bounded_step h
    rw [steps?, steps, step?_of_ne h.pc_ne]
    rcases hstep : cpu.step with ⟨_ | _, next⟩
    · rfl
    · rw [hstep] at hnext
      exact ih hnext

theorem runLimited?_of_bounded (h : cpu.regs.Bounded) (limit : UInt64) :
    cpu.runLimited? limit = some (cpu.runLimited limit) := by
  rw [runLimited?, runLimited, steps?_of_bounded h]
  rcases cpu.steps limit.toNat with ⟨_ | _, next⟩
  · rfl
  · rfl

/-- On registers that hold nibbles no command adds beyond a cell. -/
theorem checked?_of_bounded (h : cpu.regs.Bounded) (command : Command) :
    command.checked? cpu = some (command.apply cpu) := by
  cases command with
  | step =>
    rw [Command.checked?, step?_of_ne h.pc_ne]
    rfl
  | execute opcode operand =>
    rw [Command.checked?, execute?_of_ne h.pc_ne]
    rfl
  | run limit =>
    rw [Command.checked?, runLimited?_of_bounded h]
    rfl
  | reset => rfl
  | registers edit =>
    rw [Command.checked?, Registers.Edit.checked?_of_ne h.pc_ne]
    rfl
  | rom edit => rfl

/-! ### Histories -/

/-- The machines that a host can put together without reading one from elsewhere. -/
inductive Constructed : Cpu → Prop
  | fresh : Constructed fresh
  | ofImage (image : List UInt8) : Constructed (ofImage image)
  | ofRom (rom : Rom) : Constructed (ofRom rom)
  /-- The ROM holds a program that was assembled. -/
  | assembled {source : List Char} {rom : Rom} (h : Assembly.assembleRom source = .ok rom) :
      Constructed (Cpu.ofRom rom)

theorem Constructed.bounded (h : Constructed cpu) : cpu.regs.Bounded := by
  cases h with
  | _ => exact Registers.Bounded.zero

theorem bounded_after (h : cpu.regs.Bounded) (history : List Command) :
    (cpu.after history).regs.Bounded := by
  induction history generalizing cpu with
  | nil => exact h
  | cons command rest ih => exact ih (bounded_apply h command)

/-- **Registers keep to nibbles, and sums to their cells.**  Whatever a host does to a
machine that it has put together, and whether it succeeds or fails, the two
registers, the two ports and the program counter are at most 15 afterwards, and
there is no command whose sums would then go beyond a cell. -/
theorem cells_never_overflow {start : Cpu} (hstart : Constructed start) (history : List Command) :
    (start.after history).regs.Bounded ∧
      ∀ command : Command,
        command.checked? (start.after history) = some (command.apply (start.after history)) := by
  have hbounded := bounded_after hstart.bounded history
  exact ⟨hbounded, checked?_of_bounded hbounded⟩

/-- A wide register, an addition that overflows its nibble, an unused opcode, and a
program counter that is moved on over its end. -/
theorem cells_never_overflow_wide :
    Constructed (Cpu.ofImage [0xFF, 0x80]) ∧
      ((Cpu.ofImage [0xFF, 0x80]).after [.registers (.a 255), .execute 0 15, .execute 0x18 15,
        .registers (.pc 255), .registers .advance]).regs = ⟨14, 0, 0, 0, true, true, 0⟩ ∧
      (Command.run 3).checked? ((Cpu.ofImage [0xFF, 0x80]).after [.registers (.a 255),
        .execute 0 15, .execute 0x18 15, .registers (.pc 255), .registers .advance])
        = some ((Command.run 3).apply ((Cpu.ofImage [0xFF, 0x80]).after [.registers (.a 255),
          .execute 0 15, .execute 0x18 15, .registers (.pc 255), .registers .advance])) :=
  ⟨.ofImage _, by decide, (cells_never_overflow (.ofImage _) _).2 (.run 3)⟩

end Cpu
end TD4
