/-
Runs without interference.

`turned` names the ways a turn can go.  A worker whose waits pass without an edit
takes the steps of its machine.  It ends just as the machine does on its own
(`runToEnd_of_ends`), and announces the fault of its report; a run that does not end
has no limit, and all steps of its machine succeed (`ends_or_endless`).

The bound on the turns of a run hides nothing: a run with a limit needs one turn
more than its limit, and a run without one ends within the horizon or never.
-/
import TD4.Proofs.Cpu.Halting

namespace TD4
namespace Worker

variable {limit : Option UInt64} {j k m : Nat} {s : Shared} {last next : Cpu} {fault : Fault}
  {report : RunReport}

theorem atLimit_iff : (⟨limit, k⟩ : Worker).atLimit = true ↔ ∃ n, limit = some n ∧ n.toNat ≤ k := by
  rcases limit with _ | n
  · simp [atLimit]
  · simp [atLimit]

theorem not_atLimit (h : ∀ n, limit = some n → k < n.toNat) :
    (⟨limit, k⟩ : Worker).atLimit = false := by
  rw [Bool.eq_false_iff, ne_eq, atLimit_iff]
  rintro ⟨n, hn, hle⟩
  exact absurd (h n hn) (Nat.not_lt.mpr hle)

theorem lt_of_not_atLimit {w : Worker} {n : UInt64} (h : w.atLimit = false)
    (hlimit : w.limit = some n) : w.steps < n.toNat := by
  rw [atLimit, hlimit] at h
  exact Nat.not_le.mp (of_decide_eq_false h)

/-! ### Turns -/

/-- The ways a turn can go. -/
inductive Turned (w : Worker) (s : Shared) : Progress × Shared → Prop
  | limit (hlimit : w.atLimit = true) : Turned w s (.ended ⟨w.steps, none⟩, s.announce none)
  | fault {next : Cpu} {fault : Fault} (hlimit : w.atLimit = false)
      (hstep : s.cpu.step = (.error fault, next)) :
      Turned w s (.ended ⟨w.steps, some fault⟩, { s with cpu := next }.announce (some fault))
  | step {next : Cpu} (hlimit : w.atLimit = false) (hstep : s.cpu.step = (.ok (), next)) :
      Turned w s (.waiting ⟨w.limit, w.steps + 1⟩, { s with cpu := next })

theorem turned (w : Worker) (s : Shared) : Turned w s (w.turn s) := by
  rcases hlimit : w.atLimit with _ | _
  · rcases hstep : s.cpu.step with ⟨fault | _, next⟩
    · simp only [turn, hlimit, hstep]
      exact .fault hlimit hstep
    · simp only [turn, hlimit, hstep]
      exact .step hlimit hstep
  · simp only [turn, hlimit]
    exact .limit hlimit

theorem turn_of_limit {n : UInt64} (h : n.toNat ≤ k) :
    (⟨some n, k⟩ : Worker).turn s = (.ended ⟨k, none⟩, s.announce none) :=
  if_pos (atLimit_iff.mpr ⟨n, rfl, h⟩)

theorem turn_of_step (hlimit : ∀ n, limit = some n → k < n.toNat)
    (h : s.cpu.step = (.ok (), next)) :
    (⟨limit, k⟩ : Worker).turn s = (.waiting ⟨limit, k + 1⟩, { s with cpu := next }) := by
  rw [turn, not_atLimit hlimit, h]
  rfl

theorem turn_of_fault (hlimit : ∀ n, limit = some n → k < n.toNat)
    (h : s.cpu.step = (.error fault, next)) :
    (⟨limit, k⟩ : Worker).turn s
      = (.ended ⟨k, some fault⟩, { s with cpu := next }.announce (some fault)) := by
  rw [turn, not_atLimit hlimit, h]
  rfl

theorem finish_one (w : Worker) (s : Shared) : w.finish 1 s = w.turn s := by
  rw [finish]
  rcases w.turn s with ⟨worker | report, shared⟩ <;> rfl

/-- Successful steps take a turn each.  The induction lets steps have been taken. -/
theorem finish_of_steps (hlimit : ∀ n, limit = some n → j + k ≤ n.toNat)
    (h : s.cpu.steps k = (.ok (), last)) (m : Nat) :
    (⟨limit, j⟩ : Worker).finish (k + m) s
      = (⟨limit, j + k⟩ : Worker).finish m { s with cpu := last } := by
  induction k generalizing j s with
  | zero =>
    cases h
    rw [Nat.zero_add]
    rfl
  | succ k ih =>
    obtain ⟨middle, hstep, hrest⟩ := Cpu.exists_step_of_steps h
    have hroom : ∀ n, limit = some n → j < n.toNat := fun n hn => by
      have := hlimit n hn
      omega
    rw [Nat.succ_add, finish, turn_of_step hroom hstep]
    have hnext := ih (j := j + 1) (s := { s with cpu := middle })
      (fun n hn => by have := hlimit n hn; omega) hrest
    rwa [Nat.add_right_comm] at hnext

/-! ### Whole runs -/

/-- A program that fails does so within the horizon. -/
theorem lt_horizon {cpu : Cpu} (h : cpu.steps k = (.ok (), last))
    (hstep : last.step = (.error fault, next)) : k < horizon :=
  Cpu.lt_of_decides Cpu.steps_ok_of_horizon h hstep

/-- A run that ends is carried to its end by one turn more than it has successful
steps, and its outcome is announced once. -/
theorem finish_of_ends (h : Cpu.Ends limit s.cpu report next) (hturns : report.steps < m) :
    (start limit).finish m s
      = (.ended report, Shared.announce { s with cpu := next } report.fault) := by
  obtain ⟨extra, rfl⟩ := Nat.exists_eq_add_of_lt hturns
  cases h with
  | @limit n _ hlimit hsteps =>
    subst hlimit
    have hroom : ∀ m, some n = some m → 0 + n.toNat ≤ m.toNat := by
      rintro m ⟨⟩
      rw [Nat.zero_add]
    rw [start, Nat.add_assoc, finish_of_steps hroom hsteps, Nat.zero_add, finish,
      turn_of_limit (Nat.le_refl _)]
  | @fault k last _ fault hlimit hsteps hstep =>
    have hroom : ∀ n, limit = some n → 0 + k ≤ n.toNat := fun n hn => by
      rw [Nat.zero_add]
      exact Nat.le_of_lt (hlimit n hn)
    rw [start, Nat.add_assoc, finish_of_steps hroom hsteps, Nat.zero_add, finish,
      turn_of_fault (s := { s with cpu := last }) hlimit hstep]

theorem steps_lt_turnsFor {cpu : Cpu} (h : Cpu.Ends limit cpu report next) :
    report.steps < turnsFor limit := by
  cases h with
  | limit hlimit =>
    rw [hlimit]
    exact Nat.lt_succ_self _
  | fault hlimit hsteps hstep =>
    rcases limit with _ | n
    · exact lt_horizon hsteps hstep
    · exact Nat.lt_succ_of_lt (hlimit n rfl)

theorem runToEnd_of_ends (h : Cpu.Ends limit s.cpu report next) :
    runToEnd limit s = (.ended report, Shared.announce { s with cpu := next } report.fault) :=
  finish_of_ends h (steps_lt_turnsFor h)

/-- A run ends, or it has no limit and goes on for ever. -/
theorem ends_or_endless (limit : Option UInt64) (cpu : Cpu) :
    (∃ report next, Cpu.Ends limit cpu report next) ∨
      limit = none ∧ ∀ n, (cpu.steps n).1 = .ok () := by
  rcases limit with _ | n
  · rcases Cpu.steps_cases cpu horizon with ⟨last, hlast⟩ | ⟨k, last, fault, next, -, hlast, hstep⟩
    · exact Or.inr ⟨rfl, Cpu.steps_ok_of_horizon (congrArg Prod.fst hlast)⟩
    · refine Or.inl ⟨_, next, .fault ?_ hlast hstep⟩
      rintro n ⟨⟩
  · exact Or.inl (Cpu.exists_ends cpu n)

/-- A run that goes on for ever is left waiting. -/
theorem runToEnd_of_endless (h : ∀ n, (s.cpu.steps n).1 = .ok ()) :
    ∃ worker shared, runToEnd none s = (.waiting worker, shared) := by
  have hsteps : s.cpu.steps horizon = (.ok (), (s.cpu.steps horizon).2) := Prod.ext (h horizon) rfl
  have hroom : ∀ n, (none : Option UInt64) = some n → 0 + horizon ≤ n.toNat := nofun
  have hrun := finish_of_steps hroom hsteps 0
  rw [Nat.add_zero] at hrun
  exact ⟨_, _, hrun⟩

end Worker
end TD4
