/-
What a run depends on.

A step looks at the two registers, the two flags, the program counter and the byte
it fetches.  It looks at the input port only to perform `in a` or `in b`, and at the
immediate only if the operation has a use for it.  The output port, the status and
the count are written and never read.

* `Registers.perform_withPorts`: an operation passes the ports on;
* `step_of_agree`: machines that agree in what counts, and fetch bytes that
  cannot be told apart, take the same step and agree again;
* `same_run_of_agree` is the main statement, about calls of any number.

Which bytes count is known only from the run itself: they are the ones that the
first machine fetches.  The other machine may hold anything elsewhere.
-/
import TD4.Proofs.Cpu.Calls

namespace TD4

namespace Operation

/-- Does an operation have no use for its immediate? -/
def ignoresImmediate : Operation → Bool
  | movAB | inA | movBA | inB => true
  | _ => false

def readsInput : Operation → Bool
  | inA | inB => true
  | _ => false

def writesOutput : Operation → Bool
  | outB | out => true
  | _ => false

end Operation

/-- Two bytes that a step cannot tell apart: they are equal, or have the same opcode,
of an operation that has no use for its immediate. -/
def Interchangeable (x y : UInt8) : Prop :=
  x = y ∨ (Instruction.split x).1 = (Instruction.split y).1 ∧
    (Operation.ofOpcode? (Instruction.split x).1).any Operation.ignoresImmediate = true

instance (x y : UInt8) : Decidable (Interchangeable x y) :=
  inferInstanceAs (Decidable (_ ∨ _))

namespace Registers

variable {r s : Registers}

/-- The registers with other values on the ports. -/
def withPorts (r : Registers) (input output : UInt8) : Registers := { r with input, output }

/-- Two register files agree in everything but the ports. -/
structure Agree (r s : Registers) : Prop where
  a : r.a = s.a
  b : r.b = s.b
  carry : r.carry = s.carry
  latch : r.latch = s.latch
  pc : r.pc = s.pc

theorem agree_withPorts (r : Registers) (input output : UInt8) :
    r.Agree (r.withPorts input output) :=
  ⟨rfl, rfl, rfl, rfl, rfl⟩

theorem Agree.eq_withPorts (h : r.Agree s) : s = r.withPorts s.input s.output := by
  rw [withPorts, h.a, h.b, h.carry, h.latch, h.pc]

theorem clockCarry_withPorts (r : Registers) (input output : UInt8) :
    (r.withPorts input output).clockCarry = r.clockCarry.withPorts input output := by
  rw [clockCarry, clockCarry]
  rcases hcarry : r.carry with _ | _ <;> rcases hlatch : r.latch with _ | _ <;>
    simp [withPorts, hcarry, hlatch]

theorem perform_of_ignoresImmediate {op : Operation} (h : op.ignoresImmediate = true)
    (r : Registers) (imm imm' : UInt8) : r.perform op imm = r.perform op imm' := by
  cases op <;> first | rfl | cases h

/-- An operation leaves the input port alone, looks at it only to take it in, and
writes the output port or leaves it alone. -/
theorem perform_withPorts (r : Registers) (op : Operation) (imm : UInt8) {input : UInt8}
    (output : UInt8) (hinput : op.readsInput = true → input = r.input) :
    (r.withPorts input output).perform op imm
      = (r.perform op imm).withPorts input
          (if op.writesOutput then (r.perform op imm).output else output) := by
  cases op
  -- only these two look at the port, and it is the same for both
  case inA =>
    cases hinput rfl
    rfl
  case inB =>
    cases hinput rfl
    rfl
  case jnc =>
    show (if r.carry then _ else _) = Registers.withPorts (if r.carry then _ else _) _ _
    split <;> rfl
  all_goals rfl

theorem output_perform (r : Registers) {op : Operation} (h : op.writesOutput = false)
    (imm : UInt8) : (r.perform op imm).output = r.output := by
  cases op
  case outB => cases h
  case out => cases h
  case jnc =>
    rw [perform]
    split <;> rfl
  all_goals rfl

end Registers

namespace Cpu

variable {x y : Cpu} {n : Nat}

/-- Does the next instruction look at the input port? -/
def readsInput (cpu : Cpu) : Bool :=
  (Operation.ofOpcode? cpu.fetched.1).any Operation.readsInput

/-- Does the next instruction write the output port? -/
def writesOutput (cpu : Cpu) : Bool :=
  (Operation.ofOpcode? cpu.fetched.1).any Operation.writesOutput

/-! ### One step of both machines -/

theorem fetched_of_interchangeable (h : x.regs.Agree y.regs)
    (hbyte : Interchangeable (x.rom.fetch x.regs.pc) (y.rom.fetch x.regs.pc)) :
    x.fetched = y.fetched ∨ x.fetched.1 = y.fetched.1 ∧
      (Operation.ofOpcode? x.fetched.1).any Operation.ignoresImmediate = true := by
  have hy : y.fetched = Instruction.split (y.rom.fetch x.regs.pc) := by
    rw [fetched, h.pc]
  rw [hy]
  exact hbyte.imp_left (congrArg Instruction.split)

/-- A jump has a use for its immediate. -/
theorem atSelfJump_of_ignoresImmediate
    (h : (Operation.ofOpcode? x.fetched.1).any Operation.ignoresImmediate = true) :
    x.atSelfJump = false := by
  rw [Bool.eq_false_iff, ne_eq, atSelfJump_iff]
  intro hjmp
  rw [hjmp] at h
  cases h

theorem atSelfJump_of_interchangeable (h : x.regs.Agree y.regs)
    (hbyte : Interchangeable (x.rom.fetch x.regs.pc) (y.rom.fetch x.regs.pc)) :
    x.atSelfJump = y.atSelfJump := by
  rcases fetched_of_interchangeable h hbyte with hfetched | ⟨hopcode, hignores⟩
  · rw [Bool.eq_iff_iff, atSelfJump_iff, atSelfJump_iff, hfetched, h.pc]
  · rw [atSelfJump_of_ignoresImmediate hignores,
      atSelfJump_of_ignoresImmediate (hopcode ▸ hignores)]

/-- Bytes that cannot be told apart do the same to any registers. -/
theorem perform_of_interchangeable {op : Operation} (h : x.regs.Agree y.regs)
    (hbyte : Interchangeable (x.rom.fetch x.regs.pc) (y.rom.fetch x.regs.pc))
    (hopcode : Operation.ofOpcode? x.fetched.1 = some op) (r : Registers) :
    r.perform op x.fetched.2 = r.perform op y.fetched.2 := by
  rcases fetched_of_interchangeable h hbyte with hfetched | ⟨-, hignores⟩
  · rw [hfetched]
  · rw [hopcode] at hignores
    exact Registers.perform_of_ignoresImmediate hignores r _ _

theorem writesOutput_of_ofOpcode? {op : Operation}
    (hopcode : Operation.ofOpcode? x.fetched.1 = some op) : x.writesOutput = op.writesOutput := by
  rw [writesOutput, hopcode]
  rfl

/-- Machines that agree take the same step.  The registers of the other one then
differ from those of the first in its input port, and in its output port unless the
step wrote it. -/
theorem step_of_agree (h : x.regs.Agree y.regs)
    (hbyte : Interchangeable (x.rom.fetch x.regs.pc) (y.rom.fetch x.regs.pc))
    (hinput : x.readsInput = true → x.regs.input = y.regs.input) :
    x.step.1 = y.step.1 ∧ y.step.2.regs = x.step.2.regs.withPorts y.regs.input
      (if x.writesOutput then x.step.2.regs.output else y.regs.output) := by
  have hopcodes : x.fetched.1 = y.fetched.1 :=
    (fetched_of_interchangeable h hbyte).elim (congrArg Prod.fst) And.left
  have hself := atSelfJump_of_interchangeable h hbyte
  have hclock : y.regs.clockCarry
      = x.regs.clockCarry.withPorts y.regs.input y.regs.output := by
    rw [← Registers.clockCarry_withPorts, ← h.eq_withPorts]
  have hstepped := stepped x
  generalize x.step = outcome at hstepped ⊢
  cases hstepped with
  | halted hat =>
    have hwrites : x.writesOutput = false := by
      rw [writesOutput, atSelfJump_iff.mp hat]
      rfl
    rw [step_of_selfJump (hself.symm.trans hat), hwrites]
    exact ⟨rfl, h.eq_withPorts⟩
  | unused hat hopcode =>
    have hwrites : x.writesOutput = false := by
      rw [writesOutput, hopcode]
      rfl
    rw [step_of_unused (hself.symm.trans hat) (hopcodes ▸ hopcode), hwrites, hopcodes]
    exact ⟨rfl, hclock⟩
  | @done op hat hopcode =>
    have hreads : op.readsInput = true → y.regs.input = x.regs.clockCarry.input := by
      intro hop
      rw [Registers.clockCarry_eq]
      refine (hinput ?_).symm
      rw [readsInput, hopcode]
      exact hop
    rw [step_of_operation (hself.symm.trans hat) (hopcodes ▸ hopcode), hclock,
      Registers.perform_withPorts _ op _ _ hreads, perform_of_interchangeable h hbyte hopcode,
      writesOutput_of_ofOpcode? hopcode]
    exact ⟨rfl, rfl⟩

theorem output_step (h : x.writesOutput = false) : x.step.2.regs.output = x.regs.output := by
  have hclock : x.regs.clockCarry.output = x.regs.output := by
    rw [Registers.clockCarry_eq]
  have hstepped := stepped x
  generalize x.step = outcome at hstepped
  cases hstepped with
  | halted => rfl
  | unused => exact hclock
  | done _ hopcode =>
    rw [writesOutput_of_ofOpcode? hopcode] at h
    exact (Registers.output_perform _ h _).trans hclock

/-- The output ports agree after a step if they did before, or if the step writes
them. -/
theorem output_step_of_agree (h : x.regs.Agree y.regs)
    (hbyte : Interchangeable (x.rom.fetch x.regs.pc) (y.rom.fetch x.regs.pc))
    (hinput : x.readsInput = true → x.regs.input = y.regs.input)
    (houtput : x.writesOutput = true ∨ x.regs.output = y.regs.output) :
    x.step.2.regs.output = y.step.2.regs.output := by
  rw [(step_of_agree h hbyte hinput).2]
  show _ = if x.writesOutput = true then x.step.2.regs.output else y.regs.output
  split
  case isTrue => rfl
  case isFalse hwrites =>
    rw [output_step (Bool.eq_false_iff.mpr hwrites)]
    exact houtput.resolve_left hwrites

/-! ### Whole runs -/

/-- What two machines have in common that are called so many times. -/
structure SameRun (x y : Cpu) (n : Nat) : Prop where
  /-- The calls answer the same, one by one. -/
  results : (x.calls n).1 = (y.calls n).1
  /-- After each call the registers, the flags and the program counter agree. -/
  registers : ∀ k ≤ n, (x.calls k).2.regs.Agree (y.calls k).2.regs
  /-- Input ports that agree go on to agree. -/
  input : x.regs.input = y.regs.input →
    ∀ k ≤ n, (x.calls k).2.regs.input = (y.calls k).2.regs.input
  /-- The counts have grown by the same amount after each call. -/
  cycles : ∀ k ≤ n, (x.calls k).2.cycles - x.cycles = (y.calls k).2.cycles - y.cycles
  /-- From the first instruction on that writes the output ports, they agree. -/
  output : ∀ j k, j < k → k ≤ n → (x.calls j).2.writesOutput = true →
    (x.calls k).2.regs.output = (y.calls k).2.regs.output

/-- The bytes that the first machine fetches cannot be told from those that the other
one has at the same addresses. -/
def SameBytes (x y : Cpu) (n : Nat) : Prop :=
  ∀ k < n, Interchangeable (x.rom.fetch (x.calls k).2.regs.pc) (y.rom.fetch (x.calls k).2.regs.pc)

/-- The input ports agree, or the first machine never looks at its own. -/
def SameInput (x y : Cpu) (n : Nat) : Prop :=
  x.regs.input = y.regs.input ∨ ∀ k < n, (x.calls k).2.readsInput = false

section

variable {k : Nat} (h : x.regs.Agree y.regs) (hbytes : SameBytes x y n) (hinput : SameInput x y n)

include hbytes in
theorem interchangeable_calls (hk : k < n) :
    Interchangeable ((x.calls k).2.rom.fetch (x.calls k).2.regs.pc)
      ((y.calls k).2.rom.fetch (x.calls k).2.regs.pc) := by
  rw [rom_calls x, rom_calls y]
  exact hbytes k hk

include hinput in
theorem input_eq_of_readsInput (hk : k < n) (hreads : (x.calls k).2.readsInput = true) :
    (x.calls k).2.regs.input = (y.calls k).2.regs.input := by
  rw [input_calls, input_calls]
  refine hinput.resolve_right ?_
  intro hnever
  rw [hnever k hk] at hreads
  cases hreads

include h hbytes hinput in
theorem agree_calls (hk : k ≤ n) :
    (x.calls k).1 = (y.calls k).1 ∧ (x.calls k).2.regs.Agree (y.calls k).2.regs := by
  induction k with
  | zero => exact ⟨rfl, h⟩
  | succ k ih =>
    -- `k` calls lead to the machine that fetches the byte with number `k`
    obtain ⟨hresults, hagree⟩ := ih (Nat.le_of_lt hk)
    obtain ⟨hresult, hregs⟩ := step_of_agree hagree (interchangeable_calls hbytes hk)
      (input_eq_of_readsInput hinput hk)
    rw [calls_succ, calls_succ, hresults, hresult, hregs]
    exact ⟨rfl, Registers.agree_withPorts _ _ _⟩

include h hbytes hinput in
theorem output_calls {j : Nat} (hwrites : (x.calls j).2.writesOutput = true) (hj : j < k)
    (hk : k ≤ n) : (x.calls k).2.regs.output = (y.calls k).2.regs.output := by
  induction k with
  | zero => exact absurd hj (Nat.not_lt_zero j)
  | succ k ih =>
    -- the port was written by the last call, or it agreed before that call
    have houtput : (x.calls k).2.writesOutput = true ∨
        (x.calls k).2.regs.output = (y.calls k).2.regs.output := by
      rcases Nat.lt_succ_iff_lt_or_eq.mp hj with hlt | rfl
      · exact Or.inr (ih hlt (Nat.le_of_lt hk))
      · exact Or.inl hwrites
    rw [calls_succ, calls_succ]
    exact output_step_of_agree (agree_calls h hbytes hinput (Nat.le_of_lt hk)).2
      (interchangeable_calls hbytes hk) (input_eq_of_readsInput hinput hk) houtput

end

/-- **What a run does not depend on.**  Take two machines that agree in the two
registers, the flags and the program counter.  However often they are called, all
calls answer the same and they agree after each of them, if the bytes that the first
one fetches cannot be told from those of the other, and if their input ports agree
or the first one never looks at its own.  The rest of the ROM, the output port, the
status and the count have no part in it. -/
theorem same_run_of_agree (h : x.regs.Agree y.regs) (hbytes : SameBytes x y n)
    (hinput : SameInput x y n) : SameRun x y n := by
  constructor
  · exact (agree_calls h hbytes hinput (Nat.le_refl n)).1
  · intro k hk
    exact (agree_calls h hbytes hinput hk).2
  · intro hsame k _
    rw [input_calls, input_calls, hsame]
  · intro k hk
    rw [cycles_calls_sub, cycles_calls_sub, (agree_calls h hbytes hinput hk).1]
  · intro j k hj hk hwrites
    exact output_calls h hbytes hinput hwrites hj hk

/-- A register is copied with two immediates, the input is not looked at, and the
output is written by the third instruction.  Then both machines halt. -/
theorem same_run_of_agree_move :
    let x : Cpu := ⟨⟨5, 2, 9, 0, true, false, 0⟩, .ofImage [0x13, 0x52, 0x91, 0xF3], .ready, 0⟩
    let y : Cpu :=
      ⟨⟨5, 2, 4, 7, true, false, 0⟩, .ofImage [0x1C, 0x52, 0x91, 0xF3, 0x80], .errored, 40⟩
    x.regs.Agree y.regs ∧ SameBytes x y 5 ∧ SameInput x y 5 ∧
      (x.calls 5).1 = [.ok (), .ok (), .ok (), .error .halted, .error .halted] ∧ SameRun x y 5 := by
  intro x y
  have hagree : x.regs.Agree y.regs := ⟨rfl, rfl, rfl, rfl, rfl⟩
  have hbytes : SameBytes x y 5 := by
    unfold SameBytes
    decide
  have hinput : SameInput x y 5 := by
    refine Or.inr ?_
    decide
  exact ⟨hagree, hbytes, hinput, by decide, same_run_of_agree hagree hbytes hinput⟩

end Cpu
end TD4
