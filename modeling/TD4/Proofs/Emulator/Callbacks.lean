/-
The callbacks of the runs.

Each time a run is asked for it is given a callback of its own, which the worker
calls once the run is over.  An `Observed` is an emulator with these callbacks told
apart.

* `Observed.note` notes an event, and `Observed.play` a history of them; to observe an
  emulator does not change what it does (`Observed.exists_play`);
* `AnnouncesEnd`: an event that starts no run is silent, or ends the run that is going
  on and tells its outcome.
-/
import TD4.Proofs.Emulator.Turns

namespace TD4
namespace Emulator

variable {e next after : Emulator} {operation : Operation} {event : Event}
  {answer : Except Error (Option RunReport)}

/-! ### Callbacks -/

/-- An emulator with the callbacks of its runs told apart.  The first run that is asked
for is given callback 0, the next one callback 1, and so on, refused or not. -/
structure Observed where
  emulator : Emulator
  /-- How often a run was asked for. -/
  asked : Nat
  /-- The callback in the hands of the worker. -/
  held : Option Nat
  /-- The callbacks that were called, each with what it was told. -/
  called : List (Nat × Option Fault)
  deriving DecidableEq

/-- Does the host ask for a run? -/
def Event.asksForRun : Event → Bool
  | .host .run => true
  | _ => false

theorem eq_of_asksForRun (h : event.asksForRun = true) : event = .host .run := by
  unfold Event.asksForRun at h
  split at h
  case h_1 => rfl
  case h_2 => cases h

namespace Observed

/-- An emulator that was never asked for a run. -/
def start (cpu : Cpu) (config : RunConfig) : Observed := ⟨ofCpu cpu config, 0, none, []⟩

/-- The outcomes that are announced on the way to another emulator. -/
def announced (t : Observed) (next : Emulator) : List (Option Fault) :=
  next.shared.calls.drop t.emulator.shared.calls.length

/-- Note an event with its answer.  A run that is let through hands its callback to the
worker, and the worker announces an outcome by calling the callback it holds. -/
def note (t : Observed) (event : Event) (answer : Except Error (Option RunReport))
    (next : Emulator) : Observed where
  emulator := next
  asked := if event.asksForRun then t.asked + 1 else t.asked
  held :=
    if event.asksForRun && answer.isOk then some t.asked
    else if (t.announced next).isEmpty then t.held else none
  called := t.called ++ t.held.toList.flatMap fun callback =>
    (t.announced next).map fun outcome => (callback, outcome)

/-- What is observed after a history of events. -/
def play : Observed → List Event → Option Observed
  | t, [] => some t
  | t, event :: rest =>
    (event.take t.emulator).bind fun (answer, next) => (t.note event answer next).play rest

variable {t later : Observed} {k : Nat}

/-- To observe an emulator does not change what it does. -/
theorem exists_play {events : List Event} (h : t.emulator.play events = some next) :
    ∃ later, t.play events = some later ∧ later.emulator = next := by
  induction events generalizing t with
  | nil => exact ⟨t, rfl, Option.some_inj.mp h⟩
  | cons event rest ih =>
    obtain ⟨⟨answer, middle⟩, htake, hrest⟩ := Option.bind_eq_some_iff.mp h
    rw [play, htake]
    exact ih (t := t.note event answer middle) hrest

/-- What every event keeps is kept by a history. -/
theorem play_induction {P : Observed → Prop}
    (hnote : ∀ t event answer next, P t → event.take t.emulator = some (answer, next) →
      P (t.note event answer next))
    {events : List Event} (ht : P t) (h : t.play events = some later) : P later := by
  induction events generalizing t with
  | nil => exact Option.some_inj.mp h ▸ ht
  | cons event rest ih =>
    obtain ⟨⟨answer, next⟩, htake, hrest⟩ := Option.bind_eq_some_iff.mp h
    exact ih (hnote t event answer next ht htake) hrest

end Observed

/-! ### What an event announces -/

/-- Where no run is started, nobody is called as long as the run goes on, and a
run that ends calls once. -/
def AnnouncesEnd (e next : Emulator) : Prop :=
  next.shared.calls = e.shared.calls ∧ next.isRunning = e.isRunning ∨
    e.isRunning = true ∧ ∃ outcome, next.shared.calls = e.shared.calls ++ [outcome] ∧
      next.isRunning = false

theorem announcesEnd_turn (h : e.turn = some next) : AnnouncesEnd e next := by
  rw [Emulator.turn] at h
  split at h
  case h_1 worker hactive =>
    cases h
    have hrunning : e.isRunning = true := isRunning_iff.mpr ⟨worker, hactive⟩
    have hturned := Worker.turned worker e.shared
    generalize worker.turn e.shared = outcome at hturned ⊢
    cases hturned with
    | limit => exact Or.inr ⟨hrunning, _, rfl, rfl⟩
    | fault => exact Or.inr ⟨hrunning, _, rfl, rfl⟩
    | step => exact Or.inl ⟨rfl, hrunning.symm⟩
  case h_2 => cases h

theorem announcesEnd_went (h : Went e operation answer after) (hrun : operation ≠ .run) :
    AnnouncesEnd e after := by
  have hcollect : ∀ {cpu : Cpu}, e.isRunning = false →
      (e.collect.setCpu cpu).shared.calls = e.shared.calls ∧
        (e.collect.setCpu cpu).isRunning = e.isRunning := fun {cpu} hidle => by
    have hnone : (e.collect.setCpu cpu).isRunning = false :=
      isRunning_of_active_eq_none (active_collect hidle)
    refine ⟨?_, hnone.trans hidle.symm⟩
    show e.collect.shared.calls = e.shared.calls
    rw [shared_collect]
  cases h with
  | refused => exact Or.inl ⟨rfl, rfl⟩
  | step hidle => exact Or.inl (hcollect hidle)
  | stepFault hidle => exact Or.inl (hcollect hidle)
  | reset hidle => exact Or.inl (hcollect hidle)
  | run => exact absurd rfl hrun
  | noReport => exact Or.inl ⟨rfl, rfl⟩
  | report _ hactive =>
    left
    rw [isRunning, isRunning, hactive]
    exact ⟨rfl, rfl⟩
  | stopped hactive => exact Or.inr ⟨isRunning_iff.mpr ⟨_, hactive⟩, _, rfl, rfl⟩
  | setConfig => exact Or.inl ⟨rfl, rfl⟩
  | edit => exact Or.inl ⟨rfl, rfl⟩

theorem announcesEnd_take (h : event.take e = some (answer, next))
    (hasks : event.asksForRun = false) : AnnouncesEnd e next := by
  cases event with
  | turn =>
    obtain ⟨middle, hturn, heq⟩ := Option.map_eq_some_iff.mp h
    cases heq
    exact announcesEnd_turn hturn
  | host operation =>
    have hrun : operation ≠ .run := by
      rintro rfl
      cases hasks
    exact announcesEnd_went (went (apply_of_take hrun h)) hrun

namespace Observed

variable {t : Observed} {k : Nat} {outcome : Option Fault}

/-! What is noted of an event, in the four ways it can go. -/

theorem note_of_refused (t : Observed) (error : Error) :
    t.note (.host .run) (.error error) t.emulator = { t with asked := t.asked + 1 } := by
  simp [note, announced, Event.asksForRun, Except.isOk, Except.toBool]

theorem note_of_started (hcalls : next.shared.calls = t.emulator.shared.calls)
    (report : Option RunReport) :
    t.note (.host .run) (.ok report) next = ⟨next, t.asked + 1, some t.asked, t.called⟩ := by
  simp [note, announced, hcalls, Event.asksForRun, Except.isOk, Except.toBool]

theorem note_of_silent (hasks : event.asksForRun = false)
    (hcalls : next.shared.calls = t.emulator.shared.calls) :
    t.note event answer next = { t with emulator := next } := by
  simp [note, announced, hasks, hcalls]

theorem note_of_call (hasks : event.asksForRun = false) (hheld : t.held = some k)
    (hcalls : next.shared.calls = t.emulator.shared.calls ++ [outcome]) :
    t.note event answer next = ⟨next, t.asked, none, t.called ++ [(k, outcome)]⟩ := by
  simp [note, announced, hasks, hheld, hcalls]

end Observed

end Emulator
end TD4
