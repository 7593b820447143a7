/-
Every run is accounted for once.

A `Ledger` keeps all runs that were let through, in the order of their starts: the
reports that have been collected, each with the callback of its run, and at most one
run whose report has not, with how far it has got.

* `Booked` says what an event does to the ledger, and what it has to answer;
* `Agrees` says what is observed of the ledger: the callbacks that were called, the
  one in the hands of the worker, the last report and the present run;
* `Kept` is a ledger kept along a history of events, with `Agrees` at every moment.

The worker takes its turns anywhere among the operations of the host, so a run is
stopped, collected or left going on after any number of steps.
-/
import TD4.Proofs.Emulator.Callbacks

namespace TD4
namespace Emulator

/-! ### The ledger -/

/-- A run that is over: its callback and its report. -/
structure Account where
  callback : Nat
  report : RunReport
  deriving DecidableEq

/-- What a callback is told. -/
def Account.call (account : Account) : Nat × Option Fault :=
  (account.callback, account.report.fault)

/-- The runs that were let through. -/
structure Ledger where
  /-- Those whose report was collected, in order. -/
  collected : List Account
  /-- The one whose report is yet to be collected: its callback, and how far it has got. -/
  present : Option (Nat × Progress)

namespace Ledger

/-- The ledger of an emulator without a run. -/
def empty : Ledger := ⟨[], none⟩

/-- The run that is over and not collected. -/
def uncollected (l : Ledger) : Option Account :=
  match l.present with
  | some (callback, .ended report) => some ⟨callback, report⟩
  | _ => none

/-- The callback of the run that is going on. -/
def running (l : Ledger) : Option Nat :=
  match l.present with
  | some (callback, .waiting _) => some callback
  | _ => none

/-- The runs that are over, in the order of their starts. -/
def ended (l : Ledger) : List Account := l.collected ++ l.uncollected.toList

/-- The callbacks of all runs, in the order of their starts. -/
def callbacks (l : Ledger) : List Nat := l.ended.map Account.callback ++ l.running.toList

/-- Collect the report of the run that is over, if there is one. -/
def collect (l : Ledger) : Ledger := ⟨l.ended, none⟩

@[simp] theorem ended_collect (l : Ledger) : l.collect.ended = l.ended := List.append_nil _

theorem callbacks_eq (l : Ledger) (hidle : l.running = none) :
    l.callbacks = l.ended.map Account.callback := by
  rw [callbacks, hidle]
  exact List.append_nil _

theorem callbacks_waiting (collected : List Account) (callback : Nat) (worker : Worker) :
    callbacks ⟨collected, some (callback, .waiting worker)⟩
      = collected.map Account.callback ++ [callback] := by
  simp [callbacks, ended, uncollected, running]

theorem callbacks_ended (collected : List Account) (callback : Nat) (report : RunReport) :
    callbacks ⟨collected, some (callback, .ended report)⟩
      = collected.map Account.callback ++ [callback] := by
  simp [callbacks, ended, uncollected, running]

end Ledger

/-- What an event does to the ledger. -/
inductive Booked (t : Observed) (l : Ledger) :
    Event → Except Error (Option RunReport) → Emulator → Ledger → Prop
  | refused {operation : Operation} (hneeds : operation.needsIdle = true)
      (hrunning : l.running.isSome = true) :
      Booked t l (.host operation) (.error .busy) t.emulator l
  /-- A step or a reset collects, and may fail after that. -/
  | idle {operation : Operation} {answer : Except Error (Option RunReport)} {next : Emulator}
      (hop : operation = .step ∨ operation = .reset) (hanswer : answer ≠ .error .busy)
      (hidle : l.running = none) : Booked t l (.host operation) answer next l.collect
  /-- A run is let through with the callback it was given. -/
  | run {next : Emulator} (hidle : l.running = none) :
      Booked t l (.host .run) (.ok none) next
        ⟨l.ended, some (t.asked, .waiting (.start t.emulator.config.maxSteps))⟩
  /-- A wait or a stop answers with the report it collects, if there is one. -/
  | awaited {operation : Operation} {next : Emulator} (hawaits : operation.awaitsReport = true)
      (hidle : l.running = none) :
      Booked t l (.host operation) (.ok (l.uncollected.map Account.report)) next l.collect
  /-- A run that is going on is stopped where it is, and collected at once. -/
  | stopped {callback : Nat} {worker : Worker} {next : Emulator}
      (hpresent : l.present = some (callback, .waiting worker)) :
      Booked t l (.host .stop) (.ok (some ⟨worker.steps, none⟩)) next
        ⟨l.collected ++ [⟨callback, ⟨worker.steps, none⟩⟩], none⟩
  | other {operation : Operation} {next : Emulator} (hneeds : operation.needsIdle = false)
      (hawaits : operation.awaitsReport = false) :
      Booked t l (.host operation) (.ok none) next l
  /-- A turn that goes well is one more step of the run. -/
  | goesOn {callback : Nat} {worker : Worker} {next : Emulator}
      (hpresent : l.present = some (callback, .waiting worker))
      (hroom : ∀ n, worker.limit = some n → worker.steps < n.toNat)
      (hstep : t.emulator.snapshot.step = (.ok (), next.snapshot)) :
      Booked t l .turn (.ok none) next
        ⟨l.collected, some (callback, .waiting ⟨worker.limit, worker.steps + 1⟩)⟩
  | fails {callback : Nat} {worker : Worker} {next : Emulator} {fault : Fault}
      (hpresent : l.present = some (callback, .waiting worker))
      (hroom : ∀ n, worker.limit = some n → worker.steps < n.toNat)
      (hstep : t.emulator.snapshot.step = (.error fault, next.snapshot)) :
      Booked t l .turn (.ok none) next
        ⟨l.collected, some (callback, .ended ⟨worker.steps, some fault⟩)⟩
  /-- A run that may take no more steps is over. -/
  | atLimit {callback : Nat} {worker : Worker} {next : Emulator} {n : UInt64}
      (hpresent : l.present = some (callback, .waiting worker)) (hlimit : worker.limit = some n)
      (hfull : n.toNat ≤ worker.steps) (hrest : next.snapshot = t.emulator.snapshot) :
      Booked t l .turn (.ok none) next ⟨l.collected, some (callback, .ended ⟨worker.steps, none⟩)⟩

/-- What is observed agrees with a ledger. -/
structure Agrees (t : Observed) (l : Ledger) : Prop where
  /-- A run that is over has told its callback the fault of its report, and no other
  has called. -/
  called : t.called = l.ended.map Account.call
  held : t.held = l.running
  lastReport : t.emulator.lastReport = l.collected.getLast?.map Account.report
  active : t.emulator.active = l.present.map Prod.snd

/-- A ledger kept along a history of events, from one ledger to another. -/
inductive Kept : Observed → Ledger → List Event → Observed → Ledger → Prop
  | nil {t : Observed} {l : Ledger} (hagrees : Agrees t l) : Kept t l [] t l
  | cons {t later : Observed} {l between final : Ledger} {event : Event} {rest : List Event}
      {answer : Except Error (Option RunReport)} {next : Emulator} (hagrees : Agrees t l)
      (htake : event.take t.emulator = some (answer, next))
      (hbooked : Booked t l event answer next between)
      (hrest : Kept (t.note event answer next) between rest later final) :
      Kept t l (event :: rest) later final

/-! ### What an event keeps -/

variable {t later : Observed} {l between final : Ledger} {e next : Emulator} {event : Event}
  {operation : Operation} {events : List Event} {answer : Except Error (Option RunReport)}

namespace Agrees

theorem isSome_running (h : Agrees t l) : l.running.isSome = t.emulator.isRunning := by
  rw [isRunning, h.active, Ledger.running]
  rcases l.present with _ | ⟨callback, worker | report⟩ <;> rfl

theorem running_eq_none (h : Agrees t l) (hidle : t.emulator.isRunning = false) :
    l.running = none := by
  rw [← h.isSome_running] at hidle
  exact Option.isNone_iff_eq_none.mp (by simpa using hidle)

/-- What a stop answers and leaves, while no run is going on. -/
theorem stop (h : Agrees t l) (hidle : t.emulator.isRunning = false) :
    t.emulator.stop.1 = l.uncollected.map Account.report ∧
      t.emulator.collect.lastReport = l.ended.getLast?.map Account.report := by
  obtain ⟨collected, present⟩ := l
  obtain ⟨-, -, hlast, hactive⟩ := h
  rw [Emulator.stop, Emulator.collect, Ledger.ended, Ledger.uncollected]
  rcases present with _ | ⟨callback, worker | report⟩
  · rw [hactive]
    refine ⟨rfl, hlast.trans ?_⟩
    rw [show (none : Option Account).toList = [] from rfl, List.append_nil]
  · rw [isRunning_iff.mpr ⟨worker, hactive⟩] at hidle
    cases hidle
  · rw [hactive]
    refine ⟨rfl, ?_⟩
    rw [show (some (Account.mk callback report)).toList = [⟨callback, report⟩] from rfl,
      List.getLast?_concat]
    rfl

/-- An event that only collects, and makes no call. -/
theorem collect (h : Agrees t l) (hidle : t.emulator.isRunning = false)
    (hlast : next.lastReport = t.emulator.collect.lastReport) (hactive : next.active = none) :
    Agrees { t with emulator := next } l.collect where
  called := by
    rw [Ledger.ended_collect]
    exact h.called
  held := h.held.trans (h.running_eq_none hidle)
  lastReport := hlast.trans (h.stop hidle).2
  active := hactive

/-- Machine and settings may change. -/
theorem congr (h : Agrees t l) (hlast : next.lastReport = t.emulator.lastReport)
    (hactive : next.active = t.emulator.active) : Agrees { t with emulator := next } l where
  called := h.called
  held := h.held
  lastReport := hlast.trans h.lastReport
  active := hactive.trans h.active

/-- The present run is over and has called. -/
theorem call (h : Agrees t l) {callback : Nat} {worker : Worker} (report : RunReport)
    (hpresent : l.present = some (callback, .waiting worker)) :
    t.held = some callback ∧
      t.called ++ [(callback, report.fault)]
        = (l.collected ++ [Account.mk callback report]).map Account.call := by
  have hall : l.ended = l.collected := by
    rw [Ledger.ended, Ledger.uncollected, hpresent]
    exact List.append_nil _
  refine ⟨?_, ?_⟩
  · rw [h.held, Ledger.running, hpresent]
  · rw [h.called, hall, List.map_append]
    rfl

end Agrees

/-- Is a run started? -/
def Event.starts (event : Event) (answer : Except Error (Option RunReport)) : Bool :=
  event.asksForRun && answer.isOk

/-- The callbacks of the runs that are let through in a history, in order. -/
def Observed.letThrough : Observed → List Event → List Nat
  | _, [] => []
  | t, event :: rest =>
    match event.take t.emulator with
    | some (answer, next) =>
      (if event.starts answer then [t.asked] else []) ++ (t.note event answer next).letThrough rest
    | none => []

/-- A run that starts adds its callback, and nothing else does. -/
theorem Booked.callbacks (h : Booked t l event answer next between) :
    between.callbacks = l.callbacks ++ if event.starts answer then [t.asked] else [] := by
  have hrest : ∀ {operation : Operation}, operation ≠ .run →
      (Event.host operation).starts answer = false := fun {operation} hne => by
    cases operation <;> first | rfl | exact absurd rfl hne
  -- collecting a report moves a callback from the present run to those before it
  have hcollect : l.running = none → l.collect.callbacks = l.callbacks := fun hidle => by
    rw [l.collect.callbacks_eq rfl, Ledger.ended_collect, l.callbacks_eq hidle]
  have hpresent : ∀ {callback : Nat} {worker : Worker},
      l.present = some (callback, .waiting worker) →
        l.callbacks = l.collected.map Account.callback ++ [callback] := fun {callback worker} h => by
    rw [← Ledger.callbacks_waiting, ← h]
  cases h with
  | @refused operation =>
    have hstarts : (Event.host operation).starts (.error .busy) = false := Bool.and_false _
    rw [hstarts]
    exact (List.append_nil _).symm
  | idle hop _ hidle =>
    rw [hrest (by rcases hop with rfl | rfl <;> nofun), hcollect hidle]
    exact (List.append_nil _).symm
  | run hidle =>
    rw [Ledger.callbacks_waiting, l.callbacks_eq hidle]
    rfl
  | awaited hawaits hidle =>
    rw [hrest (by rintro rfl; cases hawaits), hcollect hidle]
    exact (List.append_nil _).symm
  | stopped h =>
    rw [hpresent h, Ledger.callbacks_eq _ rfl, Ledger.ended]
    simp [Event.starts, Event.asksForRun, Ledger.uncollected]
  | other hneeds =>
    rw [hrest (by rintro rfl; cases hneeds)]
    exact (List.append_nil _).symm
  | goesOn h =>
    rw [hpresent h, Ledger.callbacks_waiting]
    exact (List.append_nil _).symm
  | fails h =>
    rw [hpresent h, Ledger.callbacks_ended]
    exact (List.append_nil _).symm
  | atLimit h =>
    rw [hpresent h, Ledger.callbacks_ended]
    exact (List.append_nil _).symm

theorem Kept.callbacks (h : Kept t l events later final) :
    final.callbacks = l.callbacks ++ t.letThrough events := by
  induction h with
  | nil => exact (List.append_nil _).symm
  | cons _ htake hbooked _ ih =>
    rw [ih, hbooked.callbacks, Observed.letThrough, htake, List.append_assoc]

end Emulator
end TD4
