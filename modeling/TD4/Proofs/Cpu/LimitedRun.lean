/-
Limited runs, one after the other.

A run up to a limit may be cut in two: `runLimited_add` says that a run up to `m + n`
is a run up to `m` and, if that succeeds, a run up to `n` of the machine it leaves.

The answer of a run that fails does not tell how far it came; `RanFor` does.  It says
of a run that it took so many successful steps, that these are the first calls of the
machine, and that the next call, if there was room for it, failed and was the last.
The cycle count grows by just this number.  `limited_runs_compose` is the main
statement, about every machine and every limit.
-/
import TD4.Proofs.Cpu.Failure

namespace TD4
namespace Cpu

variable {cpu last next : Cpu} {limit m n : UInt64} {k j : Nat} {fault : Fault}

/-! ### Calls that succeed -/

theorem calls_of_steps (h : cpu.steps k = (.ok (), last)) : (cpu.calls k).2 = last := by
  induction k generalizing cpu with
  | zero =>
    cases h
    rfl
  | succ k ih =>
    obtain ⟨next, hstep, hrest⟩ := exists_step_of_steps h
    rw [calls, hstep]
    exact ih hrest

/-- Each of the steps of a run that succeeds is a call that succeeds. -/
theorem fst_step_calls_of_steps (h : cpu.steps k = (.ok (), last)) (hj : j < k) :
    (cpu.calls j).2.step.1 = .ok () := by
  obtain ⟨middle, hmiddle⟩ := exists_steps_of_le h (Nat.succ_le_of_lt hj)
  obtain ⟨before, hbefore⟩ := exists_steps_of_le h (Nat.le_of_lt hj)
  rw [calls_of_steps hbefore, ← steps_succ_of_ok hbefore, hmiddle]

theorem toNat_cycles_of_steps (h : cpu.steps k = (.ok (), last))
    (hroom : cpu.cycles.toNat + k < 2 ^ 64) : last.cycles.toNat = cpu.cycles.toNat + k := by
  rw [cycles_steps h, UInt64.toNat_add, UInt64.toNat_ofNat', Nat.add_mod_mod,
    Nat.mod_eq_of_lt hroom]

/-! ### One run -/

theorem runLimited_of_ok (h : cpu.steps limit.toNat = (.ok (), last)) :
    cpu.runLimited limit = (.ok limit, last) := by
  rw [runLimited, h]

theorem runLimited_of_fault (h : cpu.steps limit.toNat = (.error fault, last)) :
    cpu.runLimited limit = (.error fault, last) := by
  rw [runLimited, h]

/-- A run up to a limit took a number of successful steps, and perhaps one that
failed. -/
structure RanFor (cpu : Cpu) (limit : UInt64) (k : Nat) : Prop where
  le : k ≤ limit.toNat
  success : ∀ j < k, (cpu.calls j).2.step.1 = .ok ()
  /-- A run that reaches its limit answers with it. -/
  reached : k = limit.toNat → cpu.runLimited limit = (.ok limit, (cpu.calls k).2)
  /-- A run that does not has taken one more step, and none after that. -/
  failed : k < limit.toNat → ∃ fault, (cpu.calls k).2.step.1 = .error fault ∧
    cpu.runLimited limit = (.error fault, (cpu.calls (k + 1)).2)
  cycles : cpu.cycles.toNat + k < 2 ^ 64 →
    (cpu.runLimited limit).2.cycles.toNat = cpu.cycles.toNat + k

theorem exists_ranFor (cpu : Cpu) (limit : UInt64) : ∃ k, RanFor cpu limit k := by
  rcases steps_cases cpu limit.toNat with
    ⟨last, hlast⟩ | ⟨k, last, fault, next, hk, hlast, hstep⟩
  · -- the limit is reached
    have hrun := runLimited_of_ok hlast
    refine ⟨limit.toNat, le_rfl, fun j => fst_step_calls_of_steps hlast, fun _ => ?_, ?_, ?_⟩
    · rw [hrun, calls_of_steps hlast]
    · exact fun hlt => absurd hlt (Nat.lt_irrefl _)
    · rw [hrun]
      exact toNat_cycles_of_steps hlast
  · have hrun := runLimited_of_fault (steps_of_fault hlast hstep hk)
    refine ⟨k, hk.le, fun j => fst_step_calls_of_steps hlast, ?_, fun _ => ⟨fault, ?_, ?_⟩, ?_⟩
    · exact fun heq => absurd heq hk.ne
    · rw [calls_of_steps hlast, hstep]
    · rw [hrun, calls_succ, calls_of_steps hlast, hstep]
    · -- the step that failed is not counted
      rw [hrun, (failedStep hstep).cycles]
      exact toNat_cycles_of_steps hlast

/-- A run fails if and only if one of the calls it has room for does. -/
theorem RanFor.fails_iff (h : RanFor cpu limit k) :
    (∃ fault, (cpu.runLimited limit).1 = .error fault) ↔
      ∃ j < limit.toNat, ∃ fault, (cpu.calls j).2.step.1 = .error fault := by
  rcases Nat.lt_or_eq_of_le h.le with hlt | heq
  · obtain ⟨fault, hstep, hrun⟩ := h.failed hlt
    exact ⟨fun _ => ⟨k, hlt, fault, hstep⟩, fun _ => ⟨fault, by rw [hrun]⟩⟩
  · constructor
    · rintro ⟨fault, hfault⟩
      rw [h.reached heq] at hfault
      cases hfault
    · rintro ⟨j, hj, fault, hfault⟩
      rw [h.success j (heq ▸ hj)] at hfault
      cases hfault

/-! ### Two runs -/

/-- Carry on up to a limit from the outcome of a run, if it succeeded. -/
def carryOn : Except Fault UInt64 × Cpu → UInt64 → Except Fault UInt64 × Cpu
  | (.ok taken, cpu), limit =>
    match cpu.runLimited limit with
    | (.ok more, next) => (.ok (taken + more), next)
    | (.error fault, next) => (.error fault, next)
  | (.error fault, cpu), _ => (.error fault, cpu)

/-- **A run may be cut in two.** -/
theorem runLimited_add (cpu : Cpu) (h : m.toNat + n.toNat < 2 ^ 64) :
    cpu.runLimited (m + n) = carryOn (cpu.runLimited m) n := by
  have hlimit : (m + n).toNat = m.toNat + n.toNat := by
    rw [UInt64.toNat_add, Nat.mod_eq_of_lt h]
  rcases steps_cases cpu m.toNat with
    ⟨middle, hmiddle⟩ | ⟨k, last, fault, next, hk, hlast, hstep⟩
  · have hsplit := steps_add_of_ok hmiddle n.toNat
    rw [runLimited_of_ok hmiddle, carryOn, runLimited, runLimited, hlimit, hsplit]
    rcases middle.steps n.toNat with ⟨_ | _, last⟩ <;> rfl
  · -- the failure comes before the cut
    have hfirst := steps_of_fault hlast hstep hk
    have hboth : cpu.steps (m + n).toNat = (.error fault, next) :=
      steps_of_fault hlast hstep (by omega)
    rw [runLimited_of_fault hfirst, runLimited_of_fault hboth, carryOn]

/-- A run that succeeds answers with its limit. -/
theorem eq_of_runLimited_ok {taken : UInt64} (h : cpu.runLimited limit = (.ok taken, next)) :
    taken = limit := by
  rw [runLimited] at h
  split at h
  case h_1 => exact (Except.ok.inj (congrArg Prod.fst h)).symm
  case h_2 => cases h

theorem fst_carryOn_eq_ok_iff :
    (carryOn (cpu.runLimited m) n).1 = .ok (m + n) ↔
      (cpu.runLimited m).1 = .ok m ∧ ((cpu.runLimited m).2.runLimited n).1 = .ok n := by
  rcases hfirst : cpu.runLimited m with ⟨fault | taken, middle⟩
  · constructor
    · intro h
      cases h
    · rintro ⟨h, -⟩
      cases h
  · cases eq_of_runLimited_ok hfirst
    rw [carryOn]
    rcases hsecond : middle.runLimited n with ⟨fault | more, last⟩
    · constructor
      · intro h
        cases h
      · rintro ⟨-, h⟩
        cases h
    · cases eq_of_runLimited_ok hsecond
      exact ⟨fun _ => ⟨rfl, rfl⟩, fun _ => rfl⟩

/-- **Limited runs compose, and the cycles count their steps.** -/
theorem limited_runs_compose (cpu : Cpu) :
    (∀ m n : UInt64, m.toNat + n.toNat < 2 ^ 64 →
      cpu.runLimited (m + n) = carryOn (cpu.runLimited m) n ∧
      ((cpu.runLimited (m + n)).1 = .ok (m + n) ↔
        (cpu.runLimited m).1 = .ok m ∧ ((cpu.runLimited m).2.runLimited n).1 = .ok n)) ∧
    ∀ limit : UInt64, (∃ k, RanFor cpu limit k) ∧
      ((∃ fault, (cpu.runLimited limit).1 = .error fault) ↔
        ∃ j < limit.toNat, ∃ fault, (cpu.calls j).2.step.1 = .error fault) := by
  constructor
  · intro m n h
    have hadd := runLimited_add cpu h
    exact ⟨hadd, by rw [hadd, fst_carryOn_eq_ok_iff]⟩
  · intro limit
    obtain ⟨k, hk⟩ := exists_ranFor cpu limit
    exact ⟨⟨k, hk⟩, hk.fails_iff⟩

/-- Two steps and a halt: the run is cut right where it halts, and the rest has the
largest limit that is left. -/
theorem limited_runs_compose_at_halt :
    (2 : UInt64).toNat + (0xFFFFFFFFFFFFFFFD : UInt64).toNat < 2 ^ 64 ∧
      ((ofImage [0x35, 0x01, 0xF2]).runLimited 2).1 = .ok 2 ∧
      (ofImage [0x35, 0x01, 0xF2]).runLimited (2 + 0xFFFFFFFFFFFFFFFD)
        = carryOn ((ofImage [0x35, 0x01, 0xF2]).runLimited 2) 0xFFFFFFFFFFFFFFFD ∧
      ∃ fault, ((ofImage [0x35, 0x01, 0xF2]).runLimited 3).1 = .error fault := by
  obtain ⟨hcompose, hcount⟩ := limited_runs_compose (ofImage [0x35, 0x01, 0xF2])
  exact ⟨by decide, by decide, (hcompose 2 0xFFFFFFFFFFFFFFFD (by decide)).1,
    (hcount 3).2.mpr ⟨2, by decide, .halted, by decide⟩⟩

end Cpu
end TD4
