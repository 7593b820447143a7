/-
How long a program can take to halt.

A machine that starts with zero in its registers is always in one of
`16 * 16 * 16 * 3` states, as far as the steps to come are concerned: the
registers hold nibbles, and since the latch is set only while the carry is, the
two flags together have three values (`Registers.phase`).

* `steps_ok_of_states`: a program that takes as many steps as there are states
  goes on for ever;
* `bounded_run_decides` says the same of limited runs, and that a program which
  halts or fails at all does so within these steps.

The bound is about the states that the machine can get into.  The flags of a
machine read from elsewhere may have a fourth value, for which
`steps_ok_of_horizon` leaves room.
-/
import TD4.Cpu.Command
import TD4.Proofs.Cpu.Halting
import Mathlib.Data.Fintype.Option

namespace TD4
namespace Registers

variable {r s : Registers}

/-! ### Three phases of the carry -/

/-- What the carry and its latch say together: there is no carry, or there is one
that was clocked before or was not. -/
def phase (r : Registers) : Option Bool := if r.carry then some r.latch else none

theorem carry_of_latch_clockCarry (h : r.latch = true → r.carry = true) :
    r.clockCarry.latch = true → r.clockCarry.carry = true := by
  rw [latch_clockCarry, carry_clockCarry]
  rcases hcarry : r.carry with _ | _
  · -- the latch stays as it was, and it was not set without the carry
    intro hlatch
    rw [h hlatch] at hcarry
    cases hcarry
  · exact id

theorem carry_of_latch_perform (h : r.latch = true → r.carry = true) (op : Operation)
    (imm : UInt8) : (r.perform op imm).latch = true → (r.perform op imm).carry = true := by
  rw [latch_perform, carry_perform]
  rcases r.addend? op with _ | x
  · exact h
  · -- the adder opens the latch
    intro hlatch
    cases hlatch

/-- Where the latch comes only with the carry, the phase tells both. -/
theorem flags_eq_of_phase_eq (hr : r.latch = true → r.carry = true)
    (hs : s.latch = true → s.carry = true) (h : r.phase = s.phase) :
    r.carry = s.carry ∧ r.latch = s.latch := by
  have hopen : ∀ {t : Registers}, (t.latch = true → t.carry = true) → t.carry = false →
      t.latch = false := by
    intro t ht hcarry
    rw [Bool.eq_false_iff]
    intro hlatch
    rw [ht hlatch] at hcarry
    cases hcarry
  rw [phase, phase] at h
  rcases hrc : r.carry with _ | _ <;> rcases hsc : s.carry with _ | _ <;> simp [hrc, hsc] at h
  · exact ⟨rfl, (hopen hr hrc).trans (hopen hs hsc).symm⟩
  · exact ⟨rfl, h⟩

end Registers

namespace Cpu

variable {cpu x y : Cpu}

theorem carry_of_latch_step (h : cpu.regs.latch = true → cpu.regs.carry = true) :
    cpu.step.2.regs.latch = true → cpu.step.2.regs.carry = true := by
  have hclock := Registers.carry_of_latch_clockCarry h
  have hstepped := stepped cpu
  generalize cpu.step = outcome at hstepped
  cases hstepped with
  | halted => exact h
  | unused => exact hclock
  | done => exact Registers.carry_of_latch_perform hclock _ _

theorem carry_of_latch_steps (h : cpu.regs.latch = true → cpu.regs.carry = true) (n : Nat) :
    (cpu.steps n).2.regs.latch = true → (cpu.steps n).2.regs.carry = true :=
  steps_induction (P := fun cpu => cpu.regs.latch = true → cpu.regs.carry = true)
    (fun _ => carry_of_latch_step) h n

/-! ### Counting the states -/

/-- The state of a machine whose registers hold nibbles and whose latch comes only
with the carry, as far as the steps to come are concerned. -/
def state (cpu : Cpu) : Fin 16 × Fin 16 × Fin 16 × Option Bool :=
  (Nibble.index cpu.regs.a, Nibble.index cpu.regs.b, Nibble.index cpu.regs.pc, cpu.regs.phase)

theorem core_eq_of_state_eq (hx : x.regs.latch = true → x.regs.carry = true)
    (hy : y.regs.latch = true → y.regs.carry = true) (h : x.state = y.state) : x.core = y.core := by
  simp only [state, Prod.mk.injEq] at h
  obtain ⟨ha, hb, hpc, hphase⟩ := h
  obtain ⟨hcarry, hlatch⟩ := Registers.flags_eq_of_phase_eq hx hy hphase
  simp only [core, ha, hb, hpc, hcarry, hlatch]

/-- A program that takes as many steps as there are states never fails. -/
theorem steps_ok_of_states (hbounded : cpu.regs.Bounded)
    (hflags : cpu.regs.latch = true → cpu.regs.carry = true)
    (h : (cpu.steps (16 * 16 * 16 * 3)).1 = .ok ()) (n : Nat) : (cpu.steps n).1 = .ok () := by
  have hpc : ∀ {i : Nat} {x : Cpu}, cpu.steps i = (.ok (), x) → x.regs.pc.toNat < 16 := by
    intro i x hx
    have hle := (bounded_steps hbounded i).pc
    rw [hx] at hle
    exact Nat.lt_succ_of_le hle
  have hlatch : ∀ {i : Nat} {x : Cpu}, cpu.steps i = (.ok (), x) →
      x.regs.latch = true → x.regs.carry = true := by
    intro i x hx
    have hcarry := carry_of_latch_steps hflags i
    rwa [hx] at hcarry
  refine steps_ok_of_card state 0 ?_ ?_ n
  · intro i j x y hx hy hstate
    exact alike_of_core_eq ((rom_of_steps hx).trans (rom_of_steps hy).symm)
      ((input_of_steps hx).trans (input_of_steps hy).symm) (hpc hx) (hpc hy)
      (core_eq_of_state_eq (hlatch hx) (hlatch hy) hstate)
  · have hcard : 0 + Fintype.card (Fin 16 × Fin 16 × Fin 16 × Option Bool) = 16 * 16 * 16 * 3 := by
      simp
    rw [hcard]
    exact h

/-! ### Limited runs -/

theorem fst_runLimited_eq_ok_iff {limit : UInt64} :
    (cpu.runLimited limit).1 = .ok limit ↔ (cpu.steps limit.toNat).1 = .ok () := by
  rw [runLimited]
  rcases cpu.steps limit.toNat with ⟨_ | _, next⟩
  · refine iff_of_false ?_ ?_
    · rintro ⟨⟩
    · rintro ⟨⟩
  · exact iff_of_true rfl rfl

/-- **A bounded run decides halting.**  A program that is started on any input and
takes 12288 steps, for each state one, takes any number of steps.  In other words,
if a step of it ever fails, it has taken fewer steps than that before. -/
theorem bounded_run_decides (rom : Rom) (input : UInt8) :
    let start := (ofRom rom).after [.registers (.input input)]
    ((start.runLimited 12288).1 = .ok 12288 → ∀ n, (start.runLimited n).1 = .ok n) ∧
      ∀ k last fault next, start.steps k = (.ok (), last) → last.step = (.error fault, next) →
        k < 16 * 16 * 16 * 3 := by
  intro start
  have hbounded : start.regs.Bounded := Registers.Bounded.zero.setInput
  have hflags : start.regs.latch = true → start.regs.carry = true := id
  constructor
  · intro hrun n
    rw [fst_runLimited_eq_ok_iff] at hrun ⊢
    exact steps_ok_of_states hbounded hflags hrun n.toNat
  · intro k last fault next hsteps hstep
    exact lt_of_decides (steps_ok_of_states hbounded hflags) hsteps hstep

end Cpu
end TD4
