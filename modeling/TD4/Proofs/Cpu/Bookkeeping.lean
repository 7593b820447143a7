/-
What the count and the status tell.

A machine keeps a count of its successful steps and the outcome of its last step.
Steps are taken by the command for one step and by limited runs; an instruction that
is handed in from outside is executed but is no step.  A reset of the machine starts
the books afresh, while clearing the registers does not touch them.

* `sinceReset` keeps the results of all steps that a history takes, from its last
  reset on;
* `Booked` says that the count and the status are those of such a list;
* `Booked.apply`: every command carries the books on;
* `count_and_status` is the main statement, about histories of any length.
-/
import TD4.Proofs.Cpu.Calls
import TD4.Proofs.Cpu.Overflow

namespace TD4

/-- The status that is left by a step with a given result. -/
def Status.ofResult : Except Fault Unit → Status
  | .ok () => .ready
  | .error .halted => .halted
  | .error _ => .errored

/-- The status after steps with given results: that of the last one, if there is
one. -/
def Status.ofResults (results : List (Except Fault Unit)) : Status :=
  match results.getLast? with
  | some result => ofResult result
  | none => .ready

namespace Cpu

variable {cpu start : Cpu} {past : List (Except Fault Unit)}

/-! ### The steps of a history -/

/-- The results of the steps up to a limit; the first that fails is the last. -/
def attempts : Nat → Cpu → List (Except Fault Unit)
  | 0, _ => []
  | n + 1, cpu =>
    match cpu.step with
    | (.ok (), next) => .ok () :: attempts n next
    | (.error fault, _) => [.error fault]

/-- The results of the steps since the last reset, one command later. -/
def Command.noteSteps : Command → Cpu → List (Except Fault Unit) → List (Except Fault Unit)
  | .step, cpu, past => past ++ [cpu.step.1]
  | .run limit, cpu, past => past ++ cpu.attempts limit.toNat
  | .reset, _, _ => []
  | .execute _ _, _, past | .registers _, _, past | .rom _, _, past => past

/-- The results of the steps that a history takes, from its last reset on.  Those in
`past` were taken before the history. -/
def sinceReset (past : List (Except Fault Unit)) : Cpu → List Command → List (Except Fault Unit)
  | _, [] => past
  | cpu, command :: rest => sinceReset (command.noteSteps cpu past) (command.apply cpu).2 rest

/-! ### The books -/

/-- Does a command neither take a step nor reset the machine? -/
def Command.stepless : Command → Bool
  | .execute _ _ | .registers _ | .rom _ => true
  | .run limit => limit == 0
  | .step | .reset => false

theorem books_of_stepless {command : Command} (h : command.stepless = true) (cpu : Cpu) :
    (command.apply cpu).2.cycles = cpu.cycles ∧ (command.apply cpu).2.status = cpu.status := by
  cases command with
  | step => cases h
  | execute opcode operand =>
    have hexecuted := executed cpu opcode operand
    show (cpu.execute opcode operand).2.cycles = _ ∧ (cpu.execute opcode operand).2.status = _
    generalize cpu.execute opcode operand = outcome at hexecuted
    cases hexecuted <;> exact ⟨rfl, rfl⟩
  | run limit =>
    -- a run without steps
    have hzero : limit = 0 := eq_of_beq h
    subst hzero
    exact ⟨rfl, rfl⟩
  | reset => cases h
  | registers edit => exact ⟨rfl, rfl⟩
  | rom edit =>
    rw [Command.apply]
    split <;> exact ⟨rfl, rfl⟩

/-- The count and the status of a machine are those of steps with given results. -/
structure Booked (past : List (Except Fault Unit)) (cpu : Cpu) : Prop where
  cycles : cpu.cycles = UInt64.ofNat (successes past)
  status : cpu.status = Status.ofResults past

theorem status_step (cpu : Cpu) : cpu.step.2.status = Status.ofResult cpu.step.1 := by
  have hstepped := stepped cpu
  generalize cpu.step = outcome at hstepped
  cases hstepped <;> rfl

namespace Booked

theorem constructed (h : Constructed start) : Booked [] start := by
  cases h <;> exact ⟨rfl, rfl⟩

theorem reset (cpu : Cpu) : Booked [] cpu.reset := ⟨rfl, rfl⟩

theorem step (h : Booked past cpu) : Booked (past ++ [cpu.step.1]) cpu.step.2 := by
  constructor
  · rw [cycles_step_eq, h.cycles, successes_append, UInt64.ofNat_add]
  · rw [status_step, Status.ofResults, List.getLast?_concat]

theorem steps (h : Booked past cpu) (n : Nat) : Booked (past ++ cpu.attempts n) (cpu.steps n).2 := by
  induction n generalizing past cpu with
  | zero =>
    rw [attempts, List.append_nil]
    exact h
  | succ n ih =>
    have hnext := h.step
    rw [attempts, Cpu.steps]
    rcases hstep : cpu.step with ⟨_ | _, next⟩
    · -- a step that fails is noted too, as the last one
      rw [hstep] at hnext
      exact hnext
    · rw [hstep] at hnext
      have hrest := ih hnext
      rwa [List.append_assoc] at hrest

theorem runLimited (h : Booked past cpu) (limit : UInt64) :
    Booked (past ++ cpu.attempts limit.toNat) (cpu.runLimited limit).2 := by
  rw [snd_runLimited]
  exact h.steps limit.toNat

theorem of_stepless {command : Command} (h : Booked past cpu) (hstepless : command.stepless = true) :
    Booked past (command.apply cpu).2 := by
  obtain ⟨hcycles, hstatus⟩ := books_of_stepless hstepless cpu
  exact ⟨hcycles.trans h.cycles, hstatus.trans h.status⟩

/-- Every command carries the books on. -/
theorem apply (h : Booked past cpu) (command : Command) :
    Booked (command.noteSteps cpu past) (command.apply cpu).2 := by
  cases command with
  | step => exact h.step
  | execute opcode operand => exact h.of_stepless rfl
  | run limit => exact h.runLimited limit
  | reset => exact reset cpu
  | registers edit => exact h.of_stepless rfl
  | rom edit => exact h.of_stepless rfl

theorem after (h : Booked past cpu) (history : List Command) :
    Booked (sinceReset past cpu history) (cpu.after history) := by
  induction history generalizing past cpu with
  | nil => exact h
  | cons command rest ih => exact ih (h.apply command)

end Booked

/-- **The count and the status match the history.**  Whatever a host does to a machine
that it has put together, the count is the number of successful steps since the
last reset of the machine, as long as there are fewer than `2 ^ 64` of them, and the
status is that of the last step since then.  Commands that take no step change
neither. -/
theorem count_and_status (hstart : Constructed start) (history : List Command)
    (hfew : successes (sinceReset [] start history) < 2 ^ 64) :
    (start.after history).cycles.toNat = successes (sinceReset [] start history) ∧
      (start.after history).status = Status.ofResults (sinceReset [] start history) ∧
      ∀ command : Command, command.stepless = true →
        (command.apply (start.after history)).2.cycles = (start.after history).cycles ∧
          (command.apply (start.after history)).2.status = (start.after history).status := by
  have hbooked := (Booked.constructed hstart).after history
  refine ⟨?_, hbooked.status, fun _ hstepless => books_of_stepless hstepless _⟩
  rw [hbooked.cycles]
  exact Nat.mod_eq_of_lt hfew

/-- Before the reset a step succeeds, after it a limited run takes two steps and fails
at an unused opcode.  What follows is executed, edited or cleared, and no step. -/
theorem count_and_status_reset :
    Constructed (ofImage [0x31, 0x7F, 0x80]) ∧
      sinceReset [] (ofImage [0x31, 0x7F, 0x80]) [.step, .execute 15 0, .reset, .run 9,
        .registers .clear, .execute 15 3, .rom (.write 0 0xF0), .run 0]
        = [.ok (), .ok (), .error (.invalidOpcode 8)] ∧
      ((ofImage [0x31, 0x7F, 0x80]).after [.step, .execute 15 0, .reset, .run 9,
        .registers .clear, .execute 15 3, .rom (.write 0 0xF0), .run 0]).cycles.toNat = 2 ∧
      ((ofImage [0x31, 0x7F, 0x80]).after [.step, .execute 15 0, .reset, .run 9,
        .registers .clear, .execute 15 3, .rom (.write 0 0xF0), .run 0]).status = .errored := by
  have hbooks := count_and_status (.ofImage [0x31, 0x7F, 0x80]) [.step, .execute 15 0, .reset, .run 9,
    .registers .clear, .execute 15 3, .rom (.write 0 0xF0), .run 0] (by decide)
  exact ⟨.ofImage _, by decide, hbooks.1, hbooks.2.1⟩

end Cpu
end TD4
