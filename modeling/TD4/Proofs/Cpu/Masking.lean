/-
Cells that hold more than a nibble.

A machine read from elsewhere may have wide values in its registers.  The machine
masks a value wherever it uses it, so it does what its masked form does, with one
exception: the halting jump is recognised by the whole program counter.

* `Registers.masked_perform`: operations commute with masking;
* `step_masked` and `step_of_missesHalt`: so do steps, and the one step that does not
  is a jump to the low nibble of a wide program counter.  It does not halt, but the
  next one does;
* `steps_like_masked` is the main statement, with runs of any length from a program
  counter that is a nibble.

A program counter of 255 is left out, since it cannot be moved on within its cell.
-/
import TD4.Proofs.Cpu.Calls
import TD4.Proofs.Cpu.Overflow

namespace TD4

theorem Nibble.low_low_add_one (x : UInt8) : low (low x + 1) = low (x + 1) := by
  apply UInt8.toNat_inj.mp
  rw [toNat_low, toNat_low, UInt8.toNat_add, UInt8.toNat_add, toNat_low]
  show (x.toNat % 16 + 1) % 256 % 16 = (x.toNat + 1) % 256 % 16
  omega

@[simp] theorem Nibble.add_low (x y : UInt8) : add (low x) y = add x y := by
  rw [add, add, low_low]

theorem Rom.fetch_low (rom : Rom) (addr : UInt8) : rom.fetch (Nibble.low addr) = rom.fetch addr := by
  simp only [fetch, Nibble.toNat_low, Nat.mod_mod]

namespace Registers

variable (r : Registers) (x : UInt8)

/-- The registers with the low nibbles of all values. -/
def masked (r : Registers) : Registers :=
  { r with
    a := Nibble.low r.a
    b := Nibble.low r.b
    input := Nibble.low r.input
    output := Nibble.low r.output
    pc := Nibble.low r.pc }

@[simp] theorem masked_a : r.masked.a = Nibble.low r.a := rfl

@[simp] theorem masked_b : r.masked.b = Nibble.low r.b := rfl

@[simp] theorem masked_input : r.masked.input = Nibble.low r.input := rfl

@[simp] theorem masked_carry : r.masked.carry = r.carry := rfl

@[simp] theorem setA_low : r.setA (Nibble.low x) = r.setA x := by
  rw [setA, setA, Nibble.low_low]

@[simp] theorem setB_low : r.setB (Nibble.low x) = r.setB x := by
  rw [setB, setB, Nibble.low_low]

@[simp] theorem masked_setA : (r.setA x).masked = r.masked.setA x := by
  simp only [masked, setA, Nibble.low_low]

@[simp] theorem masked_setB : (r.setB x).masked = r.masked.setB x := by
  simp only [masked, setB, Nibble.low_low]

@[simp] theorem masked_setOutput : (r.setOutput x).masked = r.masked.setOutput x := by
  simp only [masked, setOutput, Nibble.low_low]

@[simp] theorem masked_setPc : (r.setPc x).masked = r.masked.setPc x := by
  simp only [masked, setPc, Nibble.low_low]

@[simp] theorem masked_captureCarry (c : Bool) :
    (r.captureCarry c).masked = r.masked.captureCarry c := rfl

@[simp] theorem masked_advancePc : r.advancePc.masked = r.masked.advancePc := by
  simp only [masked, advancePc, Nibble.low_low, Nibble.low_low_add_one]

theorem masked_clockCarry : r.clockCarry.masked = r.masked.clockCarry := by
  rw [clockCarry, clockCarry]
  rcases hcarry : r.carry with _ | _ <;> rcases hlatch : r.latch with _ | _ <;>
    simp [masked, hcarry, hlatch]

/-- An operation takes the low nibbles of what it reads. -/
theorem masked_perform (op : Operation) (imm : UInt8) :
    (r.perform op imm).masked = r.masked.perform op imm := by
  cases op
  case jnc =>
    rw [perform, perform, masked_carry]
    split
    · exact masked_advancePc r
    · exact masked_setPc r imm
  -- what is read is masked by the adder or by the setter it is given to
  all_goals simp [perform]

end Registers

namespace Cpu

variable {cpu : Cpu} {n : Nat}

/-- The machine with the low nibbles of its registers. -/
def masked (cpu : Cpu) : Cpu := { cpu with regs := cpu.regs.masked }

/-- The next byte jumps to the low nibble of a program counter that is wide. -/
def MissesHalt (cpu : Cpu) : Prop :=
  15 < cpu.regs.pc.toNat ∧ cpu.fetched = (Operation.jmp.opcode, Nibble.low cpu.regs.pc)

instance (cpu : Cpu) : Decidable cpu.MissesHalt := inferInstanceAs (Decidable (_ ∧ _))

theorem fetched_masked (cpu : Cpu) : cpu.masked.fetched = cpu.fetched := by
  show Instruction.split (cpu.rom.fetch (Nibble.low cpu.regs.pc)) = cpu.fetched
  rw [Rom.fetch_low, fetched]

/-- The masked machine halts where the machine does, and where the machine misses to
halt. -/
theorem atSelfJump_masked_iff :
    cpu.masked.atSelfJump = true ↔ cpu.atSelfJump = true ∨ cpu.MissesHalt := by
  rw [atSelfJump_iff, atSelfJump_iff, fetched_masked]
  show cpu.fetched = (_, Nibble.low cpu.regs.pc) ↔ _
  constructor
  · intro hself
    rcases Nat.lt_or_ge 15 cpu.regs.pc.toNat with hwide | hnarrow
    · exact Or.inr ⟨hwide, hself⟩
    · rw [Nibble.low_eq_self (Nat.lt_succ_of_le hnarrow)] at hself
      exact Or.inl hself
  · rintro (hself | hmisses)
    · -- an immediate is a nibble, so the program counter is one
      have hle : cpu.regs.pc.toNat ≤ 15 := by
        have himm := toNat_fetched_snd_le cpu
        rwa [hself] at himm
      rw [hself, Nibble.low_eq_self (Nat.lt_succ_of_le hle)]
    · exact hmisses.2

/-- A step commutes with masking unless the machine misses to halt. -/
theorem step_masked (h : ¬ cpu.MissesHalt) :
    cpu.masked.step = (cpu.step.1, cpu.step.2.masked) := by
  have hrunning : cpu.atSelfJump = false → cpu.masked.atSelfJump = false := by
    intro hself
    rw [Bool.eq_false_iff, ne_eq, atSelfJump_masked_iff, hself]
    exact not_or.mpr ⟨Bool.false_ne_true, h⟩
  have hfetched := fetched_masked cpu
  have hstepped := stepped cpu
  generalize cpu.step = outcome at hstepped ⊢
  cases hstepped with
  | halted hself =>
    rw [step_of_selfJump (atSelfJump_masked_iff.mpr (Or.inl hself))]
    rfl
  | unused hself hopcode =>
    rw [step_of_unused (hrunning hself) (hfetched ▸ hopcode), hfetched]
    show _ = (_, { cpu with regs := cpu.regs.clockCarry.masked, status := .errored })
    rw [Registers.masked_clockCarry]
    rfl
  | @done op hself hopcode =>
    rw [step_of_operation (hrunning hself) (hfetched ▸ hopcode), hfetched]
    show _ = (_, { cpu with
      regs := (cpu.regs.clockCarry.perform op cpu.fetched.2).masked
      status := .ready
      cycles := cpu.cycles + 1 })
    rw [Registers.masked_perform, Registers.masked_clockCarry]
    rfl

/-- Where the machine misses to halt it jumps to the low nibble of its program
counter, and is found there by the next step. -/
theorem step_of_missesHalt (h : cpu.MissesHalt) :
    cpu.step = (.ok (), { cpu with
        regs := { cpu.regs.clockCarry with pc := Nibble.low cpu.regs.pc }
        status := .ready
        cycles := cpu.cycles + 1 }) ∧
      cpu.step.2.step.1 = .error .halted := by
  obtain ⟨hwide, hfetched⟩ := h
  have hself : cpu.atSelfJump = false := by
    rw [Bool.eq_false_iff, ne_eq, atSelfJump_iff, hfetched, Prod.ext_iff]
    rintro ⟨-, hlow⟩
    change Nibble.low cpu.regs.pc = cpu.regs.pc at hlow
    have hle := Nibble.toNat_low_le cpu.regs.pc
    rw [hlow] at hle
    exact absurd hle (Nat.not_le.mpr hwide)
  have hopcode : Operation.ofOpcode? cpu.fetched.1 = some .jmp := by
    rw [hfetched]
    rfl
  have hstep : cpu.step = (.ok (), { cpu with
      regs := { cpu.regs.clockCarry with pc := Nibble.low cpu.regs.pc }
      status := .ready
      cycles := cpu.cycles + 1 }) := by
    have hjump : cpu.regs.clockCarry.perform .jmp (Nibble.low cpu.regs.pc)
        = { cpu.regs.clockCarry with pc := Nibble.low cpu.regs.pc } := by
      rw [Registers.perform, Registers.setPc, Nibble.low_low]
    rw [step_of_operation hself hopcode, hfetched, hjump]
  refine ⟨hstep, ?_⟩
  rw [hstep, step_of_selfJump]
  rw [atSelfJump_iff]
  show Instruction.split (cpu.rom.fetch (Nibble.low cpu.regs.pc)) = _
  rw [Rom.fetch_low]
  exact hfetched

/-! ### Whole runs -/

theorem toNat_pc_step_le (h : cpu.regs.pc.toNat ≤ 15) : cpu.step.2.regs.pc.toNat ≤ 15 := by
  have hclock : cpu.regs.clockCarry.pc.toNat ≤ 15 := by
    rwa [Registers.pc_clockCarry]
  have hstepped := stepped cpu
  generalize cpu.step = outcome at hstepped
  cases hstepped with
  | halted => exact h
  | unused => exact hclock
  | done => exact Nat.le_of_lt_succ (Registers.toNat_pc_perform_lt _ _ _)

theorem step_masked_of_le (h : cpu.regs.pc.toNat ≤ 15) :
    cpu.masked.step = (cpu.step.1, cpu.step.2.masked) :=
  step_masked fun hmisses => absurd h (Nat.not_le.mpr hmisses.1)

theorem calls_masked (h : cpu.regs.pc.toNat ≤ 15) (n : Nat) :
    cpu.masked.calls n = ((cpu.calls n).1, (cpu.calls n).2.masked) := by
  induction n generalizing cpu with
  | zero => rfl
  | succ n ih =>
    rw [calls, step_masked_of_le h, ih (toNat_pc_step_le h)]
    rfl

theorem steps_masked (h : cpu.regs.pc.toNat ≤ 15) (n : Nat) :
    cpu.masked.steps n = ((cpu.steps n).1, (cpu.steps n).2.masked) := by
  induction n generalizing cpu with
  | zero => rfl
  | succ n ih =>
    have hnext := toNat_pc_step_le h
    rw [steps, steps, step_masked_of_le h]
    rcases hstep : cpu.step with ⟨_ | _, next⟩
    · rfl
    · rw [hstep] at hnext
      exact ih hnext

theorem runLimited_masked (h : cpu.regs.pc.toNat ≤ 15) (limit : UInt64) :
    cpu.masked.runLimited limit = ((cpu.runLimited limit).1, (cpu.runLimited limit).2.masked) := by
  rw [runLimited, runLimited, steps_masked h]
  rcases cpu.steps limit.toNat with ⟨_ | _, next⟩
  · rfl
  · rfl

/-- What a machine and its masked form have in common. -/
structure StepsLikeMasked (cpu : Cpu) : Prop where
  /-- The sums of a step fit in their cells. -/
  fits : cpu.step? = some cpu.step ∧ cpu.masked.step? = some cpu.masked.step
  /-- The masked form gives the same result, and what it leaves behind is masked. -/
  step : ¬ cpu.MissesHalt → cpu.masked.step = (cpu.step.1, cpu.step.2.masked)
  /-- The one exception: the masked form halts as it stands.  The machine itself jumps
  to the low nibble of its program counter, and halts at its next step. -/
  missesHalt : cpu.MissesHalt →
    cpu.masked.step = (.error .halted, { cpu.masked with status := .halted }) ∧
      cpu.step = (.ok (), { cpu with
        regs := { cpu.regs.clockCarry with pc := Nibble.low cpu.regs.pc }
        status := .ready
        cycles := cpu.cycles + 1 }) ∧
      cpu.step.2.step.1 = .error .halted
  /-- From a program counter that is a nibble there is no exception, however many
  steps are taken. -/
  runs : cpu.regs.pc.toNat ≤ 15 →
    (∀ n, cpu.masked.calls n = ((cpu.calls n).1, (cpu.calls n).2.masked)) ∧
      ∀ limit, cpu.masked.runLimited limit
        = ((cpu.runLimited limit).1, (cpu.runLimited limit).2.masked)

/-- **Wide values act as their low nibbles.**  A machine whose program counter can be
moved on does what its masked form does, whatever its registers hold, except where
it misses to halt. -/
theorem steps_like_masked (h : cpu.regs.pc.toNat ≤ 254) : StepsLikeMasked cpu := by
  have hne : ∀ {x : UInt8}, x.toNat ≤ 254 → x ≠ 255 := by
    rintro x hle rfl
    exact absurd hle (by decide)
  have hmasked : cpu.masked.regs.pc.toNat ≤ 254 :=
    Nat.le_trans (Nibble.toNat_low_le cpu.regs.pc) (by decide)
  refine ⟨⟨step?_of_ne (hne h), step?_of_ne (hne hmasked)⟩, step_masked, ?_, ?_⟩
  · intro hmisses
    exact ⟨step_of_selfJump (atSelfJump_masked_iff.mpr (Or.inr hmisses)),
      step_of_missesHalt hmisses⟩
  · intro hle
    exact ⟨calls_masked hle, runLimited_masked hle⟩

/-- A program counter of 18 at a jump to 2, where the machine misses to halt, and one
of 20 at an addition to a wide register. -/
theorem steps_like_masked_wide :
    let x : Cpu := ⟨⟨0x35, 0, 0, 0, true, false, 18⟩, .ofImage [0, 0, 0xF2], .ready, 0⟩
    let y : Cpu := ⟨⟨0x3C, 0, 0, 0, false, true, 20⟩, .ofImage [0, 0, 0, 0, 0x05], .ready, 0⟩
    x.regs.pc.toNat ≤ 254 ∧ x.MissesHalt ∧ x.masked.step.1 = .error .halted ∧
      StepsLikeMasked x ∧
      y.regs.pc.toNat ≤ 254 ∧ ¬ y.MissesHalt ∧ y.masked.step.2.regs = ⟨1, 0, 0, 0, true, false, 5⟩ ∧
      StepsLikeMasked y := by
  intro x y
  have hx : x.regs.pc.toNat ≤ 254 := by decide
  have hy : y.regs.pc.toNat ≤ 254 := by decide
  exact ⟨hx, by decide, by decide, steps_like_masked hx, hy, by decide, by decide,
    steps_like_masked hy⟩

end Cpu
end TD4
