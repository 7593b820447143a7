/-
What a step does.

A call of the machine goes one of three ways, and `Executed` and `Stepped` name
them with everything they leave behind:

* it is refused before anything changes: a wide operand in `execute`, a jump to
  its own address in `step`;
* its opcode names nothing, and only the carry latch was clocked;
* it performs an operation on the clocked registers.

`executed` and `stepped` say that there is no other way.  Facts about steps are
proved by going through these cases, and `steps_induction` carries what every step
keeps on to runs; where two machines are stepped together,
`step_of_selfJump`, `step_of_unused` and `step_of_operation` tell what the other
one does.
-/
import TD4.Proofs.Cpu.Registers
import Mathlib.Tactic.IntervalCases

namespace TD4
namespace Cpu

variable {cpu : Cpu} {opcode operand : UInt8}

/-- The opcode and the immediate of the byte at the program counter. -/
def fetched (cpu : Cpu) : UInt8 × UInt8 := Instruction.split (cpu.rom.fetch cpu.regs.pc)

/-- Is the next instruction a jump to its own address? -/
def atSelfJump (cpu : Cpu) : Bool := isSelfJump cpu.regs.pc (cpu.rom.fetch cpu.regs.pc)

theorem atSelfJump_iff :
    cpu.atSelfJump = true ↔ cpu.fetched = (Operation.jmp.opcode, cpu.regs.pc) :=
  beq_iff_eq

theorem toNat_fetched_snd_le (cpu : Cpu) : cpu.fetched.2.toNat ≤ 15 :=
  Nibble.toNat_low_le (cpu.rom.fetch cpu.regs.pc)

theorem toNat_fetched_fst_le (cpu : Cpu) : cpu.fetched.1.toNat ≤ 15 := by
  have hlt := (cpu.rom.fetch cpu.regs.pc).toNat_lt
  rw [fetched, Instruction.split, UInt8.toNat_shiftRight]
  show _ >>> 4 ≤ 15
  rw [Nat.shiftRight_eq_div_pow]
  omega

/-! ### Execution -/

/-- The ways an execution can go. -/
inductive Executed (cpu : Cpu) (opcode operand : UInt8) : Except Fault Unit × Cpu → Prop
  | refused (hwide : 15 < operand.toNat) :
      Executed cpu opcode operand (.error (.immediateOverflow operand), cpu)
  | unused (hnarrow : operand.toNat ≤ 15) (hopcode : Operation.ofOpcode? opcode = none) :
      Executed cpu opcode operand
        (.error (.invalidOpcode opcode), { cpu with regs := cpu.regs.clockCarry })
  | done {op : Operation} (hnarrow : operand.toNat ≤ 15)
      (hopcode : Operation.ofOpcode? opcode = some op) :
      Executed cpu opcode operand
        (.ok (), { cpu with regs := cpu.regs.clockCarry.perform op operand })

theorem executed (cpu : Cpu) (opcode operand : UInt8) :
    Executed cpu opcode operand (cpu.execute opcode operand) := by
  by_cases hwide : 0x0F < operand
  · rw [execute, if_pos hwide]
    exact .refused (UInt8.lt_iff_toNat_lt.mp hwide)
  · have hnarrow : operand.toNat ≤ 15 := by
      rw [UInt8.lt_iff_toNat_lt] at hwide
      exact Nat.not_lt.mp hwide
    rw [execute, if_neg hwide]
    rcases hopcode : Operation.ofOpcode? opcode with _ | op
    · exact .unused hnarrow hopcode
    · exact .done hnarrow hopcode

/-! ### Steps -/

/-- The ways a step can go. -/
inductive Stepped (cpu : Cpu) : Except Fault Unit × Cpu → Prop
  | halted (hself : cpu.atSelfJump = true) :
      Stepped cpu (.error .halted, { cpu with status := .halted })
  | unused (hself : cpu.atSelfJump = false)
      (hopcode : Operation.ofOpcode? cpu.fetched.1 = none) :
      Stepped cpu (.error (.invalidOpcode cpu.fetched.1),
        { cpu with regs := cpu.regs.clockCarry, status := .errored })
  | done {op : Operation} (hself : cpu.atSelfJump = false)
      (hopcode : Operation.ofOpcode? cpu.fetched.1 = some op) :
      Stepped cpu (.ok (),
        { cpu with
          regs := cpu.regs.clockCarry.perform op cpu.fetched.2
          status := .ready
          cycles := cpu.cycles + 1 })

theorem stepped (cpu : Cpu) : Stepped cpu cpu.step := by
  by_cases hself : cpu.atSelfJump = true
  · have hstep : cpu.step = (.error .halted, { cpu with status := .halted }) := if_pos hself
    rw [hstep]
    exact .halted hself
  · have hoff : cpu.atSelfJump = false := Bool.eq_false_iff.mpr hself
    have hnot : ¬ isSelfJump cpu.regs.pc (cpu.rom.fetch cpu.regs.pc) = true := hself
    simp only [step, if_neg hnot]
    have hexecuted := executed cpu cpu.fetched.1 cpu.fetched.2
    rw [fetched] at hexecuted
    generalize cpu.execute _ _ = outcome at hexecuted ⊢
    -- the immediate of a byte is never refused
    cases hexecuted with
    | refused hwide => exact absurd (toNat_fetched_snd_le cpu) (Nat.not_le.mpr hwide)
    | unused _ hopcode => exact .unused hoff hopcode
    | done _ hopcode => exact .done hoff hopcode

/-! The same read the other way: where a step goes is decided by the byte it
fetches. -/

theorem step_of_selfJump (hself : cpu.atSelfJump = true) :
    cpu.step = (.error .halted, { cpu with status := .halted }) :=
  if_pos hself

theorem step_of_unused (hself : cpu.atSelfJump = false)
    (hopcode : Operation.ofOpcode? cpu.fetched.1 = none) :
    cpu.step = (.error (.invalidOpcode cpu.fetched.1),
      { cpu with regs := cpu.regs.clockCarry, status := .errored }) := by
  have hstepped := stepped cpu
  generalize cpu.step = outcome at hstepped ⊢
  cases hstepped with
  | halted hself' => cases hself.symm.trans hself'
  | unused => rfl
  | done _ hopcode' => cases hopcode.symm.trans hopcode'

theorem step_of_operation {op : Operation} (hself : cpu.atSelfJump = false)
    (hopcode : Operation.ofOpcode? cpu.fetched.1 = some op) :
    cpu.step = (.ok (),
      { cpu with
        regs := cpu.regs.clockCarry.perform op cpu.fetched.2
        status := .ready
        cycles := cpu.cycles + 1 }) := by
  have hstepped := stepped cpu
  generalize cpu.step = outcome at hstepped ⊢
  cases hstepped with
  | halted hself' => cases hself.symm.trans hself'
  | unused _ hopcode' => cases hopcode.symm.trans hopcode'
  | done _ hopcode' =>
    cases hopcode.symm.trans hopcode'
    rfl

theorem bounded_step (h : cpu.regs.Bounded) : cpu.step.2.regs.Bounded := by
  have hstepped := stepped cpu
  generalize cpu.step = outcome at hstepped
  cases hstepped with
  | halted => exact h
  | unused => exact h.clockCarry
  | done => exact h.clockCarry.perform _ _

theorem bounded_execute (h : cpu.regs.Bounded) (opcode operand : UInt8) :
    (cpu.execute opcode operand).2.regs.Bounded := by
  have hexecuted := executed cpu opcode operand
  generalize cpu.execute opcode operand = outcome at hexecuted
  cases hexecuted with
  | refused => exact h
  | unused => exact h.clockCarry
  | done => exact h.clockCarry.perform _ _

/-- What every step keeps is kept by many steps. -/
theorem steps_induction {P : Cpu → Prop} (hstep : ∀ cpu, P cpu → P cpu.step.2) (h : P cpu)
    (n : Nat) : P (cpu.steps n).2 := by
  induction n generalizing cpu with
  | zero => exact h
  | succ n ih =>
    have hnext := hstep cpu h
    rw [steps]
    rcases hresult : cpu.step with ⟨_ | _, next⟩
    · rwa [hresult] at hnext
    · rw [hresult] at hnext
      exact ih hnext

theorem snd_runLimited (cpu : Cpu) (limit : UInt64) :
    (cpu.runLimited limit).2 = (cpu.steps limit.toNat).2 := by
  rw [runLimited]
  rcases cpu.steps limit.toNat with ⟨_ | _, next⟩ <;> rfl

theorem bounded_steps (h : cpu.regs.Bounded) (n : Nat) : (cpu.steps n).2.regs.Bounded :=
  steps_induction (P := fun cpu => cpu.regs.Bounded) (fun _ => bounded_step) h n

/-- No command leads out of the nibbles. -/
theorem bounded_apply (h : cpu.regs.Bounded) (command : Command) :
    (command.apply cpu).2.regs.Bounded := by
  cases command with
  | step => exact bounded_step h
  | execute opcode operand => exact bounded_execute h opcode operand
  | run limit =>
    show (cpu.runLimited limit).2.regs.Bounded
    rw [snd_runLimited]
    exact bounded_steps h limit.toNat
  | reset => exact Registers.Bounded.zero
  | registers edit => exact h.edit edit
  | rom edit =>
    rw [Command.apply]
    split
    · exact h
    · exact h

/-- The opcodes that name nothing. -/
theorem ofOpcode?_eq_none_iff (hnarrow : opcode.toNat ≤ 15) :
    Operation.ofOpcode? opcode = none ↔ opcode ∈ ([8, 10, 12, 13] : List UInt8) := by
  constructor
  · intro h
    have hmem : opcode.toNat ∈ [8, 10, 12, 13] := by
      rw [Operation.ofOpcode?] at h
      generalize opcode.toNat = n at h hnarrow
      interval_cases n <;> first | decide | cases h
    simpa [← UInt8.toNat_inj] using hmem
  · intro h
    simp only [List.mem_cons, List.not_mem_nil, or_false] at h
    rcases h with rfl | rfl | rfl | rfl <;> rfl

/-- A step fails at an unused opcode and only there with this fault. -/
theorem step_eq_invalidOpcode_iff :
    cpu.step.1 = .error (.invalidOpcode opcode) ↔
      cpu.fetched.1 = opcode ∧ opcode ∈ ([8, 10, 12, 13] : List UInt8) := by
  have hunused := ofOpcode?_eq_none_iff (toNat_fetched_fst_le cpu)
  have hstepped := stepped cpu
  generalize cpu.step = outcome at hstepped
  cases hstepped with
  | halted hself =>
    have hjmp : cpu.fetched.1 = 15 := congrArg Prod.fst (atSelfJump_iff.mp hself)
    constructor
    · intro h
      cases h
    · rintro ⟨rfl, hmem⟩
      rw [hjmp] at hmem
      exact absurd hmem (by decide)
  | unused _ hopcode =>
    constructor
    · intro h
      cases h
      exact ⟨rfl, hunused.mp hopcode⟩
    · rintro ⟨rfl, -⟩
      rfl
  | done _ hopcode =>
    constructor
    · intro h
      cases h
    · rintro ⟨rfl, hmem⟩
      rw [hunused.mpr hmem] at hopcode
      cases hopcode

/-- A step succeeds, halts, or meets an opcode that names nothing. -/
theorem result_step (cpu : Cpu) :
    cpu.step.1 = .ok () ∨ cpu.step.1 = .error .halted ∨
      ∃ opcode ∈ ([8, 10, 12, 13] : List UInt8), cpu.step.1 = .error (.invalidOpcode opcode) := by
  have hunused := ofOpcode?_eq_none_iff (toNat_fetched_fst_le cpu)
  have hstepped := stepped cpu
  generalize cpu.step = outcome at hstepped
  cases hstepped with
  | halted => exact Or.inr (Or.inl rfl)
  | unused _ hopcode => exact Or.inr (Or.inr ⟨_, hunused.mp hopcode, rfl⟩)
  | done => exact Or.inl rfl

theorem input_step (cpu : Cpu) : cpu.step.2.regs.input = cpu.regs.input := by
  have hclock : cpu.regs.clockCarry.input = cpu.regs.input := by
    rw [Registers.clockCarry_eq]
  have hstepped := stepped cpu
  generalize cpu.step = outcome at hstepped
  cases hstepped with
  | halted => rfl
  | unused => exact hclock
  | done => exact (Registers.input_perform _ _ _).trans hclock

theorem rom_step (cpu : Cpu) : cpu.step.2.rom = cpu.rom := by
  have hstepped := stepped cpu
  generalize cpu.step = outcome at hstepped
  cases hstepped <;> rfl

end Cpu
end TD4
