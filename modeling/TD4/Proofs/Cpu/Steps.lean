/-
Many steps.

A machine that is stepped up to a number of times takes all the steps
successfully, or some successful steps and one that fails.

* `steps_add_of_ok` and `steps_of_fault`: what follows successful steps, and what
  follows a step that fails;
* `steps_cases`: there is no third way;
* `Ends` is a run that ends by itself, because it reaches its limit or because a
  step fails.  A run ends in at most one way (`Ends.unique`), and one with a
  limit always ends (`exists_ends`).
-/
import TD4.Proofs.Cpu.Step
import TD4.Worker

namespace TD4
namespace Cpu

variable {cpu last next : Cpu} {k n : Nat} {fault : Fault}

theorem exists_step_of_steps (h : cpu.steps (k + 1) = (.ok (), last)) :
    ∃ next, cpu.step = (.ok (), next) ∧ next.steps k = (.ok (), last) := by
  rw [steps] at h
  split at h
  case h_1 next hstep => exact ⟨next, hstep, h⟩
  case h_2 => cases h

theorem steps_add_of_ok (h : cpu.steps k = (.ok (), last)) (n : Nat) :
    cpu.steps (k + n) = last.steps n := by
  induction k generalizing cpu with
  | zero =>
    cases h
    rw [Nat.zero_add]
  | succ k ih =>
    obtain ⟨next, hstep, hrest⟩ := exists_step_of_steps h
    rw [Nat.succ_add, steps, hstep]
    exact ih hrest

theorem steps_one (cpu : Cpu) : cpu.steps 1 = cpu.step := by
  rw [steps]
  split
  case h_1 hstep => exact hstep.symm
  case h_2 hstep => exact hstep.symm

theorem steps_succ_of_ok (h : cpu.steps k = (.ok (), last)) : cpu.steps (k + 1) = last.step :=
  (steps_add_of_ok h 1).trans (steps_one last)

theorem steps_of_step_fault (h : cpu.step = (.error fault, next)) (n : Nat) :
    cpu.steps (n + 1) = (.error fault, next) := by
  rw [steps, h]

/-- After a step that fails there is no further step. -/
theorem steps_of_fault (h : cpu.steps k = (.ok (), last)) (hstep : last.step = (.error fault, next))
    (hn : k < n) : cpu.steps n = (.error fault, next) := by
  obtain ⟨m, rfl⟩ := Nat.exists_eq_add_of_lt hn
  rw [Nat.add_assoc, steps_add_of_ok h, steps_of_step_fault hstep]

/-- All steps succeed, or one of them is the first to fail. -/
theorem steps_cases (cpu : Cpu) (n : Nat) :
    (∃ last, cpu.steps n = (.ok (), last)) ∨
      ∃ k last fault next, k < n ∧ cpu.steps k = (.ok (), last) ∧
        last.step = (.error fault, next) := by
  induction n with
  | zero => exact Or.inl ⟨cpu, rfl⟩
  | succ n ih =>
    rcases ih with ⟨last, hlast⟩ | ⟨k, last, fault, next, hk, hlast, hstep⟩
    · rcases hstep : last.step with ⟨_ | _, next⟩
      · exact Or.inr ⟨n, last, _, next, Nat.lt_succ_self n, hlast, hstep⟩
      · exact Or.inl ⟨next, (steps_succ_of_ok hlast).trans hstep⟩
    · exact Or.inr ⟨k, last, fault, next, Nat.lt_succ_of_lt hk, hlast, hstep⟩

/-- Fewer steps than succeed succeed. -/
theorem exists_steps_of_le (h : cpu.steps n = (.ok (), last)) (hk : k ≤ n) :
    ∃ middle, cpu.steps k = (.ok (), middle) := by
  rcases steps_cases cpu k with hok | ⟨j, middle, fault, next, hj, hmiddle, hstep⟩
  · exact hok
  · rw [steps_of_fault hmiddle hstep (Nat.lt_of_lt_of_le hj hk)] at h
    cases h

theorem rom_steps (cpu : Cpu) (n : Nat) : (cpu.steps n).2.rom = cpu.rom :=
  steps_induction (P := fun next => next.rom = cpu.rom) (fun next h => (rom_step next).trans h) rfl n

/-! ### What a step leaves alone -/

/-- A step that fails touches no register but the carry. -/
theorem shown_of_step_fault (h : cpu.step = (.error fault, next)) :
    next.regs.pc = cpu.regs.pc ∧ next.regs.a = cpu.regs.a ∧ next.regs.b = cpu.regs.b ∧
      next.regs.output = cpu.regs.output ∧ next.cycles = cpu.cycles := by
  have hclock := cpu.regs.clockCarry_eq
  have hstepped := stepped cpu
  rw [h] at hstepped
  cases hstepped with
  | halted => exact ⟨rfl, rfl, rfl, rfl, rfl⟩
  | unused =>
    rw [hclock]
    exact ⟨rfl, rfl, rfl, rfl, rfl⟩

/-- Only a jump to its own address halts. -/
theorem atSelfJump_of_step_halted (h : cpu.step = (.error .halted, next)) :
    cpu.atSelfJump = true := by
  have hstepped := stepped cpu
  rw [h] at hstepped
  cases hstepped with
  | halted hself => exact hself

theorem cycles_step (h : cpu.step = (.ok (), next)) : next.cycles = cpu.cycles + 1 := by
  have hstepped := stepped cpu
  rw [h] at hstepped
  cases hstepped with
  | done => rfl

theorem cycles_steps (h : cpu.steps k = (.ok (), last)) :
    last.cycles = cpu.cycles + UInt64.ofNat k := by
  induction k generalizing cpu with
  | zero =>
    cases h
    exact (UInt64.add_zero _).symm
  | succ k ih =>
    obtain ⟨next, hstep, hrest⟩ := exists_step_of_steps h
    rw [ih hrest, cycles_step hstep, UInt64.add_assoc, UInt64.add_comm 1, UInt64.ofNat_add]
    rfl

/-! ### Runs that end -/

/-- A run that ends by itself, with its report and the machine it leaves: it has
taken as many steps as it may, or a step fails before that. -/
inductive Ends (limit : Option UInt64) (cpu : Cpu) : RunReport → Cpu → Prop
  | limit {n : UInt64} {next : Cpu} (hlimit : limit = some n)
      (hsteps : cpu.steps n.toNat = (.ok (), next)) : Ends limit cpu ⟨n.toNat, none⟩ next
  | fault {k : Nat} {last next : Cpu} {fault : Fault}
      (hlimit : ∀ n, limit = some n → k < n.toNat) (hsteps : cpu.steps k = (.ok (), last))
      (hstep : last.step = (.error fault, next)) : Ends limit cpu ⟨k, some fault⟩ next

/-- The first step that fails is the only one. -/
theorem fault_unique {j k : Nat} {last' next' : Cpu} {fault' : Fault}
    (hj : cpu.steps j = (.ok (), last)) (hstep : last.step = (.error fault, next))
    (hk : cpu.steps k = (.ok (), last')) (hstep' : last'.step = (.error fault', next')) : j = k := by
  rcases Nat.lt_trichotomy j k with hlt | heq | hlt
  · rw [steps_of_fault hj hstep hlt] at hk
    cases hk
  · exact heq
  · rw [steps_of_fault hk hstep' hlt] at hj
    cases hj

theorem Ends.unique {limit : Option UInt64} {report report' : RunReport} {next' : Cpu}
    (h : Ends limit cpu report next) (h' : Ends limit cpu report' next') :
    report = report' ∧ next = next' := by
  cases h with
  | limit hlimit hsteps =>
    cases h' with
    | limit hlimit' hsteps' =>
      cases hlimit.symm.trans hlimit'
      cases hsteps.symm.trans hsteps'
      exact ⟨rfl, rfl⟩
    | fault hlimit' hsteps' hstep' =>
      rw [steps_of_fault hsteps' hstep' (hlimit' _ hlimit)] at hsteps
      cases hsteps
  | fault hlimit hsteps hstep =>
    cases h' with
    | limit hlimit' hsteps' =>
      rw [steps_of_fault hsteps hstep (hlimit _ hlimit')] at hsteps'
      cases hsteps'
    | fault hlimit' hsteps' hstep' =>
      cases fault_unique hsteps hstep hsteps' hstep'
      cases hsteps.symm.trans hsteps'
      cases hstep.symm.trans hstep'
      exact ⟨rfl, rfl⟩

theorem exists_ends (cpu : Cpu) (n : UInt64) : ∃ report next, Ends (some n) cpu report next := by
  rcases steps_cases cpu n.toNat with ⟨next, hnext⟩ | ⟨k, last, fault, next, hk, hlast, hstep⟩
  · exact ⟨_, next, .limit rfl hnext⟩
  · refine ⟨_, next, .fault ?_ hlast hstep⟩
    intro m hm
    cases hm
    exact hk

/-- A run with a limit is a limited run of the machine: it fails with the fault of
its report, or answers with its limit. -/
theorem Ends.runLimited {n : UInt64} {report : RunReport} (h : Ends (some n) cpu report next) :
    cpu.runLimited n = (match report.fault with
      | some fault => .error fault
      | none => .ok n, next) := by
  cases h with
  | limit hlimit hsteps =>
    cases hlimit
    rw [Cpu.runLimited, hsteps]
  | fault hlimit hsteps hstep =>
    rw [Cpu.runLimited, steps_of_fault hsteps hstep (hlimit n rfl)]

end Cpu
end TD4
