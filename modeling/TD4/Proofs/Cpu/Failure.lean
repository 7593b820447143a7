/-
Failures leave no trace but the clock.

A step fails at the halting jump, which changes nothing, or at an opcode that names
nothing, by which time the carry latch has been clocked.  Where it went wrong is
not touched either way, so the next step meets the same fault
(`fst_step_of_same_place`), and goes on meeting it (`calls_of_fault`).  The clock runs
out: it moves a raised carry into the latch, then drops both, and a third time does
nothing (`clockCarry_settled`).  So two failures bring the machine to rest
(`snd_calls_of_fault`).

* `FailedStep` is what a step that fails leaves behind;
* `Executes` is what an execution answers, and what it leaves alone whether it
  fails or not;
* `failures_repeat` puts them together, for every machine.
-/
import TD4.Proofs.Cpu.Calls

namespace TD4

/-- A clock that has been struck twice has nothing left to do. -/
theorem Registers.clockCarry_settled (r : Registers) :
    r.clockCarry.clockCarry.clockCarry = r.clockCarry.clockCarry := by
  obtain ⟨a, b, input, output, carry, latch, pc⟩ := r
  cases carry <;> cases latch <;> rfl

/-- An opcode that names nothing is that of no operation. -/
theorem Operation.ofOpcode?_eq_none {opcode : UInt8} (h : ∀ op : Operation, op.opcode ≠ opcode) :
    ofOpcode? opcode = none := by
  rcases hop : ofOpcode? opcode with _ | op
  · rfl
  · exact absurd (opcode_of_ofOpcode? hop) (h op)

namespace Cpu

variable {cpu next other : Cpu} {fault : Fault}

/-! ### One failure -/

/-- What a step that fails with a fault leaves behind. -/
structure FailedStep (cpu : Cpu) (fault : Fault) (next : Cpu) : Prop where
  rom : next.rom = cpu.rom
  a : next.regs.a = cpu.regs.a
  b : next.regs.b = cpu.regs.b
  input : next.regs.input = cpu.regs.input
  output : next.regs.output = cpu.regs.output
  pc : next.regs.pc = cpu.regs.pc
  cycles : next.cycles = cpu.cycles
  /-- At the halting jump the carry and the latch are left alone too.  At an unused
  opcode the latch has been clocked, once. -/
  cause : fault = .halted ∧ next = { cpu with status := .halted } ∨
    (∃ opcode, fault = .invalidOpcode opcode) ∧
      next = { cpu with regs := cpu.regs.clockCarry, status := .errored }

theorem failedStep (h : cpu.step = (.error fault, next)) : FailedStep cpu fault next := by
  obtain ⟨hpc, ha, hb, houtput, hcycles⟩ := shown_of_step_fault h
  have hrom := rom_step cpu
  have hinput := input_step cpu
  have hstepped := stepped cpu
  rw [h] at hrom hinput hstepped
  refine ⟨hrom, ha, hb, hinput, houtput, hpc, hcycles, ?_⟩
  cases hstepped with
  | halted => exact Or.inl ⟨rfl, rfl⟩
  | unused => exact Or.inr ⟨⟨_, rfl⟩, rfl⟩

/-! ### The same failure again -/

/-- What a step fails with is decided by the ROM and the program counter. -/
theorem fst_step_of_same_place (hrom : other.rom = cpu.rom) (hpc : other.regs.pc = cpu.regs.pc)
    (h : cpu.step.1 = .error fault) : other.step.1 = .error fault := by
  have hfetched : other.fetched = cpu.fetched := by rw [fetched, fetched, hrom, hpc]
  have hself : other.atSelfJump = cpu.atSelfJump := by rw [atSelfJump, atSelfJump, hrom, hpc]
  have hstepped := stepped cpu
  generalize cpu.step = outcome at h hstepped
  cases hstepped with
  | halted hjump =>
    rw [step_of_selfJump (hself.trans hjump)]
    exact h
  | unused hjump hopcode =>
    rw [step_of_unused (hself.trans hjump) (hfetched ▸ hopcode), hfetched]
    exact h
  | done => cases h

/-- Calls after a failure stay where it happened. -/
theorem same_place_of_fault (h : cpu.step.1 = .error fault) (n : Nat) :
    (cpu.calls n).2.rom = cpu.rom ∧ (cpu.calls n).2.regs.pc = cpu.regs.pc := by
  refine ⟨rom_calls cpu n, ?_⟩
  induction n with
  | zero => rfl
  | succ n ih =>
    have hagain := fst_step_of_same_place (rom_calls cpu n) ih h
    rw [calls_succ]
    exact (failedStep (Prod.ext hagain rfl)).pc.trans ih

/-- Every call after a failure fails in the same way. -/
theorem fst_step_calls_of_fault (h : cpu.step.1 = .error fault) (n : Nat) :
    (cpu.calls n).2.step.1 = .error fault :=
  fst_step_of_same_place (same_place_of_fault h n).1 (same_place_of_fault h n).2 h

theorem calls_of_fault (h : cpu.step.1 = .error fault) (n : Nat) :
    (cpu.calls n).1 = List.replicate n (.error fault) := by
  induction n with
  | zero => rfl
  | succ n ih => rw [calls_succ, ih, fst_step_calls_of_fault h, List.replicate_succ']

/-! ### Coming to rest -/

theorem status_of_halted (h : FailedStep cpu .halted next) :
    next = { cpu with status := .halted } := by
  rcases h.cause with ⟨-, hnext⟩ | ⟨⟨opcode, hfault⟩, -⟩
  · exact hnext
  · cases hfault

theorem clocked_of_invalidOpcode {opcode : UInt8} (h : FailedStep cpu (.invalidOpcode opcode) next) :
    next = { cpu with regs := cpu.regs.clockCarry, status := .errored } := by
  rcases h.cause with ⟨hfault, -⟩ | ⟨-, hnext⟩
  · cases hfault
  · exact hnext

/-- The third of three failures changes nothing. -/
theorem eq_of_three_failures {first second third : Cpu} (h₁ : FailedStep cpu fault first)
    (h₂ : FailedStep first fault second) (h₃ : FailedStep second fault third) : third = second := by
  rcases h₁.cause with ⟨rfl, -⟩ | ⟨⟨opcode, rfl⟩, hfirst⟩
  · rw [status_of_halted h₃, status_of_halted h₂]
  · rw [clocked_of_invalidOpcode h₃, clocked_of_invalidOpcode h₂, hfirst]
    simp only [Registers.clockCarry_settled]

/-- After two failures the machine is at rest. -/
theorem snd_calls_of_fault (h : cpu.step.1 = .error fault) {n : Nat} (hn : 2 ≤ n) :
    (cpu.calls n).2 = (cpu.calls 2).2 := by
  -- each call fails as the first did, so any three in a row are three failures
  have hfailed : ∀ n, FailedStep (cpu.calls n).2 fault (cpu.calls (n + 1)).2 := fun n => by
    rw [calls_succ]
    exact failedStep (Prod.ext (fst_step_calls_of_fault h n) rfl)
  induction n, hn using Nat.le_induction with
  | base => rfl
  | succ n hn ih =>
    obtain ⟨k, rfl⟩ := Nat.exists_eq_add_of_le' hn
    exact (eq_of_three_failures (hfailed k) (hfailed (k + 1)) (hfailed (k + 2))).trans ih

/-! ### Executions -/

/-- What an execution answers to an opcode and an operand. -/
structure Executes (cpu : Cpu) (opcode operand : UInt8) : Prop where
  /-- A wide operand is refused before the opcode is looked at. -/
  wide : 15 < operand.toNat → cpu.execute opcode operand = (.error (.immediateOverflow operand), cpu)
  /-- An opcode that is that of no operation is found out after the clock. -/
  unused : operand.toNat ≤ 15 → (∀ op : Operation, op.opcode ≠ opcode) →
    cpu.execute opcode operand
      = (.error (.invalidOpcode opcode), { cpu with regs := cpu.regs.clockCarry })
  used : operand.toNat ≤ 15 → (∃ op : Operation, op.opcode = opcode) →
    (cpu.execute opcode operand).1 = .ok ()
  rom : (cpu.execute opcode operand).2.rom = cpu.rom
  input : (cpu.execute opcode operand).2.regs.input = cpu.regs.input
  status : (cpu.execute opcode operand).2.status = cpu.status
  cycles : (cpu.execute opcode operand).2.cycles = cpu.cycles

theorem executes (cpu : Cpu) (opcode operand : UInt8) : Executes cpu opcode operand := by
  have hclock : cpu.regs.clockCarry.input = cpu.regs.input := by
    rw [Registers.clockCarry_eq]
  have hexecuted := executed cpu opcode operand
  constructor <;> generalize cpu.execute opcode operand = outcome at hexecuted ⊢
  case wide =>
    intro hwide
    cases hexecuted with
    | refused => rfl
    | unused hnarrow => exact absurd hwide (Nat.not_lt.mpr hnarrow)
    | done hnarrow => exact absurd hwide (Nat.not_lt.mpr hnarrow)
  case unused =>
    intro hnarrow hnone
    cases hexecuted with
    | refused hwide => exact absurd hwide (Nat.not_lt.mpr hnarrow)
    | unused => rfl
    | done _ hopcode => cases hopcode.symm.trans (Operation.ofOpcode?_eq_none hnone)
  case used =>
    rintro hnarrow ⟨op, rfl⟩
    cases hexecuted with
    | refused hwide => exact absurd hwide (Nat.not_lt.mpr hnarrow)
    | unused _ hopcode => cases hopcode.symm.trans (Operation.ofOpcode?_opcode op)
    | done => rfl
  case rom => cases hexecuted <;> rfl
  case input =>
    cases hexecuted with
    | refused => rfl
    | unused => exact hclock
    | done => exact (Registers.input_perform _ _ _).trans hclock
  case status => cases hexecuted <;> rfl
  case cycles => cases hexecuted <;> rfl

/-- **What fails can be tried again, and fails again.**  A step that fails moves
nothing but the status and the clock of the carry; calls after it meet the same
fault for ever, and the second of them is the last to change anything. -/
theorem failures_repeat (cpu : Cpu) :
    (∀ fault next, cpu.step = (.error fault, next) →
      FailedStep cpu fault next ∧
      (∀ n, (cpu.calls n).1 = List.replicate n (.error fault)) ∧
      ∀ n, 2 ≤ n → (cpu.calls n).2 = (cpu.calls 2).2) ∧
    ∀ opcode operand, Executes cpu opcode operand := by
  refine ⟨fun fault next h => ?_, executes cpu⟩
  have hfault : cpu.step.1 = .error fault := congrArg Prod.fst h
  exact ⟨failedStep h, calls_of_fault hfault, fun n => snd_calls_of_fault hfault⟩

/-- An unused opcode under a fresh carry: the first failure marks the latch, the
second drops the carry, and from then on nothing changes. -/
theorem failures_repeat_fresh_carry :
    ∃ cpu, cpu = (ofImage [0x87]).after [.registers (.freshCarry true)] ∧
      cpu.step.1 = .error (.invalidOpcode 8) ∧
      FailedStep cpu (.invalidOpcode 8) cpu.step.2 ∧
      (cpu.calls 4).1 = List.replicate 4 (.error (.invalidOpcode 8)) ∧
      (cpu.calls 4).2 = (cpu.calls 2).2 ∧ (cpu.calls 2).2 ≠ (cpu.calls 1).2 := by
  have hfault : ((ofImage [0x87]).after [.registers (.freshCarry true)]).step.1
      = .error (.invalidOpcode 8) := by decide
  obtain ⟨hfailed, hsame, hrest⟩ := (failures_repeat _).1 _ _ (Prod.ext hfault rfl)
  exact ⟨_, rfl, hfault, hfailed, hsame 4, hrest 4 (by decide), by decide⟩

end Cpu
end TD4
