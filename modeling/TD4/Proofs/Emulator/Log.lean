/-
Histories of an emulator.

* `turns_of_waiting`: the turns of a run are those of its worker;
* `Launched` says what a host finds after starting a run: the end of the run, or
  the run waiting after its first step;
* `Went` has a constructor for each way an operation can go, and `went` says that
  there is no other;
* `log` carries out a history and keeps each operation with its answer and with
  the emulator after it.

An operation that does not come back ends the log.  That is a wait for a run
that is left waiting, or a run without end (`stuck_of_log`).
-/
import TD4.Emulator
import TD4.Proofs.Worker.RunToEnd

namespace TD4
namespace Emulator

variable {e after : Emulator} {operation : Operation} {answer : Except Error (Option RunReport)}
  {config : RunConfig} {s shared : Shared} {progress : Progress}

/-! ### Collecting a report -/

@[simp] theorem shared_collect (e : Emulator) : e.collect.shared = e.shared := by
  rw [collect]
  split <;> rfl

@[simp] theorem config_collect (e : Emulator) : e.collect.config = e.config := by
  rw [collect]
  split <;> rfl

@[simp] theorem snapshot_collect (e : Emulator) : e.collect.snapshot = e.snapshot :=
  congrArg Shared.cpu (shared_collect e)

theorem active_collect (h : e.isRunning = false) : e.collect.active = none := by
  rw [collect]
  split
  case h_1 => rfl
  case h_2 hended =>
    rw [isRunning] at h
    split at h
    case h_1 => cases h
    case h_2 hwaiting =>
      rcases hactive : e.active with _ | (worker | report)
      · rfl
      · exact absurd hactive (hwaiting worker)
      · exact absurd hactive (hended report)

theorem isRunning_iff : e.isRunning = true ↔ ∃ worker, e.active = some (.waiting worker) := by
  rw [isRunning]
  split
  case h_1 worker hwaiting => exact ⟨fun _ => ⟨worker, hwaiting⟩, fun _ => rfl⟩
  case h_2 hwaiting =>
    constructor
    · intro h
      cases h
    · rintro ⟨worker, h⟩
      exact absurd h (hwaiting worker)

theorem isRunning_of_active_eq_none (h : e.active = none) : e.isRunning = false := by
  rw [isRunning, h]

/-! ### A run in turns -/

theorem startRun_of_idle (h : e.isRunning = false) :
    e.startRun = (.ok (), { e.collect with active := some (.waiting (.start e.config.maxSteps)) }) := by
  rw [startRun, if_neg (by simp [h])]

theorem startRun_of_running (h : e.isRunning = true) : e.startRun = (.error .busy, e) := by
  rw [startRun, if_pos h]

theorem turn_of_waiting {worker : Worker} (h : e.active = some (.waiting worker)) :
    e.turn = some { e with active := some (worker.turn e.shared).1
                           shared := (worker.turn e.shared).2 } := by
  rw [turn, h]

theorem turns_of_ended {report : RunReport} (h : e.active = some (.ended report)) (n : Nat) :
    e.turns n = e := by
  have hturn : e.turn = none := by rw [turn, h]
  cases n with
  | zero => rfl
  | succ n => rw [turns, hturn]

/-- The turns of a run are those of its worker. -/
theorem turns_of_waiting {worker : Worker} (hactive : e.active = some (.waiting worker)) (n : Nat) :
    e.turns n = { e with active := some (worker.finish n e.shared).1
                         shared := (worker.finish n e.shared).2 } := by
  -- the induction follows the worker from one turn to the next
  induction n generalizing e worker with
  | zero =>
    rw [turns, Worker.finish, ← hactive]
  | succ n ih =>
    rw [turns, turn_of_waiting hactive, Worker.finish]
    rcases worker.turn e.shared with ⟨worker' | report, shared⟩
    · exact ih rfl
    · exact turns_of_ended rfl n

/-- What has become of a run some turns after its start. -/
theorem turns_startRun (hidle : e.isRunning = false) (n : Nat) :
    e.startRun.2.turns n
      = { e.collect with
          active := some ((Worker.start e.config.maxSteps).finish n e.shared).1
          shared := ((Worker.start e.config.maxSteps).finish n e.shared).2 } := by
  rw [startRun_of_idle hidle, turns_of_waiting rfl, shared_collect]

theorem run_of_running (h : e.isRunning = true) : e.run = some (.error .busy, e) := by
  rw [run, startRun_of_running h]

theorem run_of_idle (hidle : e.isRunning = false) :
    e.run =
      if patience ≤ e.config.tickMs then some (.ok (), e.startRun.2.turns 1)
      else if (e.startRun.2.turns (Worker.turnsFor e.config.maxSteps)).isRunning then none
      else some (.ok (), e.startRun.2.turns (Worker.turnsFor e.config.maxSteps)) := by
  rw [run, startRun_of_idle hidle]
  simp only [config_collect]

/-- A run that comes back is a start and some turns. -/
theorem exists_turns_of_run {result : Except Error Unit} (h : e.run = some (result, after)) :
    result = e.startRun.1 ∧ ∃ n, after = e.startRun.2.turns n := by
  rcases hrunning : e.isRunning with _ | _
  · have hresult : e.startRun.1 = .ok () := by rw [startRun_of_idle hrunning]
    rw [run_of_idle hrunning] at h
    rw [hresult]
    split at h
    case isTrue =>
      cases h
      exact ⟨rfl, 1, rfl⟩
    case isFalse =>
      split at h
      case isTrue => cases h
      case isFalse =>
        cases h
        exact ⟨rfl, _, rfl⟩
  · rw [run_of_running hrunning] at h
    rw [startRun_of_running hrunning]
    cases h
    exact ⟨rfl, 0, rfl⟩

/-! ### What a host finds -/

/-- What a host finds after starting a run. -/
inductive Launched (config : RunConfig) (s : Shared) : Progress → Shared → Prop
  | ended {report : RunReport} {next : Cpu} (hends : Cpu.Ends config.maxSteps s.cpu report next) :
      Launched config s (.ended report) (Shared.announce { s with cpu := next } report.fault)
  | waiting {next : Cpu} (hpatience : patience ≤ config.tickMs)
      (hstep : s.cpu.step = (.ok (), next)) :
      Launched config s (.waiting ⟨config.maxSteps, 1⟩) { s with cpu := next }

/-- The first turn ends a run or leaves it waiting. -/
theorem launched_finish_one (hpatience : patience ≤ config.tickMs) :
    Launched config s ((Worker.start config.maxSteps).finish 1 s).1
      ((Worker.start config.maxSteps).finish 1 s).2 := by
  rw [Worker.finish_one]
  have hturned := Worker.turned (Worker.start config.maxSteps) s
  generalize (Worker.start config.maxSteps).turn s = outcome at hturned ⊢
  cases hturned with
  | limit hlimit =>
    -- the limit of the run is zero
    obtain ⟨n, hn, hle⟩ := Worker.atLimit_iff.mp hlimit
    have hzero : n.toNat = 0 := Nat.le_zero.mp hle
    have hends : Cpu.Ends config.maxSteps s.cpu ⟨n.toNat, none⟩ s.cpu := by
      refine .limit hn ?_
      rw [hzero]
      rfl
    rw [hzero] at hends
    exact .ended hends
  | fault hlimit hstep =>
    exact .ended (.fault (fun _ => Worker.lt_of_not_atLimit hlimit) rfl hstep)
  | step _ hstep => exact .waiting hpatience hstep

/-- A run that is let through and comes back has ended or waits. -/
theorem launched_of_run (hidle : e.isRunning = false) {result : Except Error Unit}
    (h : e.run = some (result, after)) :
    result = .ok () ∧ ∃ progress shared, Launched e.config e.shared progress shared ∧
      after = { e.collect with active := some progress, shared } := by
  rw [run_of_idle hidle, turns_startRun hidle, turns_startRun hidle] at h
  split at h
  case isTrue hpatience =>
    cases h
    exact ⟨rfl, _, _, launched_finish_one hpatience, rfl⟩
  case isFalse =>
    split at h
    case isTrue => cases h
    case isFalse hended =>
      cases h
      refine ⟨rfl, _, _, ?_, rfl⟩
      rcases Worker.ends_or_endless e.config.maxSteps e.shared.cpu with
        ⟨report, next, hends⟩ | ⟨hlimit, hrun⟩
      · have hfinish := Worker.runToEnd_of_ends (s := e.shared) hends
        rw [Worker.runToEnd] at hfinish
        rw [hfinish]
        exact .ended hends
      · -- a run that goes on for ever is still going on
        obtain ⟨worker, left, hwaiting⟩ := Worker.runToEnd_of_endless hrun
        rw [Worker.runToEnd, ← hlimit] at hwaiting
        rw [hwaiting] at hended
        exact absurd rfl hended

theorem endless_of_run_eq_none (hidle : e.isRunning = false) (h : e.run = none) :
    e.config.maxSteps = none ∧ ∀ n, (e.snapshot.steps n).1 = .ok () := by
  rcases Worker.ends_or_endless e.config.maxSteps e.snapshot with ⟨report, next, hends⟩ | hendless
  · have hfinish := Worker.runToEnd_of_ends (s := e.shared) hends
    rw [Worker.runToEnd] at hfinish
    rw [run_of_idle hidle, turns_startRun hidle, turns_startRun hidle, hfinish] at h
    split at h
    case isTrue => cases h
    case isFalse =>
      split at h
      case isTrue hrunning => cases hrunning
      case isFalse => cases h
  · exact hendless

/-! ### One operation -/

/-- The operations that are refused while a run is going on. -/
def Operation.needsIdle : Operation → Bool
  | .step | .reset | .run => true
  | _ => false

/-- The operations that answer with a report. -/
def Operation.awaitsReport : Operation → Bool
  | .wait | .stop => true
  | _ => false

/-- The ways an operation can go. -/
inductive Went (e : Emulator) : Operation → Except Error (Option RunReport) → Emulator → Prop
  | refused {operation : Operation} (hbusy : e.isRunning = true)
      (hneeds : operation.needsIdle = true) : Went e operation (.error .busy) e
  | step {next : Cpu} (hidle : e.isRunning = false) (hstep : e.snapshot.step = (.ok (), next)) :
      Went e .step (.ok none) (e.collect.setCpu next)
  | stepFault {next : Cpu} {fault : Fault} (hidle : e.isRunning = false)
      (hstep : e.snapshot.step = (.error fault, next)) :
      Went e .step (.error (.machine fault)) (e.collect.setCpu next)
  | reset (hidle : e.isRunning = false) :
      Went e .reset (.ok none) (e.collect.setCpu e.snapshot.reset)
  | run {progress : Progress} {shared : Shared} (hidle : e.isRunning = false)
      (hlaunched : Launched e.config e.shared progress shared) :
      Went e .run (.ok none) { e.collect with active := some progress, shared }
  | noReport {operation : Operation} (hawaits : operation.awaitsReport = true)
      (hactive : e.active = none) : Went e operation (.ok none) e
  | report {operation : Operation} {report : RunReport} (hawaits : operation.awaitsReport = true)
      (hactive : e.active = some (.ended report)) :
      Went e operation (.ok (some report)) (e.record report)
  /-- A run that was left waiting is stopped. -/
  | stopped {worker : Worker} (hactive : e.active = some (.waiting worker)) :
      Went e .stop (.ok (some ⟨worker.steps, none⟩))
        ({ e with shared := e.shared.announce none }.record ⟨worker.steps, none⟩)
  | setConfig (config : RunConfig) : Went e (.setConfig config) (.ok none) (e.setConfig config)
  | edit (f : Cpu → Cpu) : Went e (.edit f) (.ok none) (e.setCpu (f e.snapshot))

theorem went_step (e : Emulator) : Went e .step (e.step.1.map fun _ => none) e.step.2 := by
  rw [Emulator.step]
  split
  case isTrue hbusy => exact .refused hbusy rfl
  case isFalse hidle =>
    rw [Bool.not_eq_true] at hidle
    simp only [snapshot_collect]
    rcases hstep : e.snapshot.step with ⟨fault | _, next⟩
    · exact .stepFault hidle hstep
    · exact .step hidle hstep

theorem went_reset (e : Emulator) : Went e .reset (e.reset.1.map fun _ => none) e.reset.2 := by
  rw [Emulator.reset]
  split
  case isTrue hbusy => exact .refused hbusy rfl
  case isFalse hidle =>
    rw [Bool.not_eq_true] at hidle
    simp only [snapshot_collect]
    exact .reset hidle

theorem went_run {result : Except Error Unit} (h : e.run = some (result, after)) :
    Went e .run (result.map fun _ => none) after := by
  rcases hrunning : e.isRunning with _ | _
  · obtain ⟨rfl, progress, shared, hlaunched, rfl⟩ := launched_of_run hrunning h
    exact .run hrunning hlaunched
  · rw [run_of_running hrunning] at h
    cases h
    exact .refused hrunning rfl

theorem went_wait {report : Option RunReport} (h : e.wait = some (report, after)) :
    Went e .wait (.ok report) after := by
  rw [Emulator.wait] at h
  split at h
  case h_1 hactive =>
    cases h
    exact .noReport rfl hactive
  case h_2 report hactive =>
    cases h
    exact .report rfl hactive
  case h_3 => cases h

theorem active_stop (e : Emulator) : e.stop.2.active = none := by
  rw [Emulator.stop]
  split
  case h_1 hactive => exact hactive
  case h_2 => rfl
  case h_3 => rfl

theorem went_stop (e : Emulator) : Went e .stop (.ok e.stop.1) e.stop.2 := by
  rw [Emulator.stop]
  split
  case h_1 hactive => exact .noReport rfl hactive
  case h_2 report hactive => exact .report rfl hactive
  case h_3 worker hactive => exact .stopped hactive

/-- There is no other way for an operation to go. -/
theorem went (h : operation.apply e = some (answer, after)) : Went e operation answer after := by
  cases operation with
  | step =>
    cases h
    exact went_step e
  | reset =>
    cases h
    exact went_reset e
  | run =>
    obtain ⟨⟨result, next⟩, hrun, heq⟩ := Option.map_eq_some_iff.mp h
    cases heq
    exact went_run hrun
  | wait =>
    obtain ⟨⟨report, next⟩, hwait, heq⟩ := Option.map_eq_some_iff.mp h
    cases heq
    exact went_wait hwait
  | stop =>
    cases h
    exact went_stop e
  | setConfig config =>
    cases h
    exact .setConfig config
  | edit f =>
    cases h
    exact .edit f

/-- Looking at the machine and editing it is the operation `edit`. -/
theorem exists_apply_edit {α : Type} (e : Emulator) (f : Cpu → α × Cpu) :
    ∃ after, (Operation.edit fun cpu => (f cpu).2).apply e = some (.ok none, after) ∧
      e.withCpu f = ((f e.snapshot).1, after) :=
  ⟨_, rfl, rfl⟩

/-- The operations that do not come back. -/
inductive Stuck (e : Emulator) : Operation → Prop
  | wait (hbusy : e.isRunning = true) : Stuck e .wait
  | run (hidle : e.isRunning = false) (hlimit : e.config.maxSteps = none)
      (hendless : ∀ n, (e.snapshot.steps n).1 = .ok ()) : Stuck e .run

theorem stuck_of_apply (h : operation.apply e = none) : Stuck e operation := by
  cases operation with
  | step => cases h
  | reset => cases h
  | run =>
    have hrun : e.run = none := Option.map_eq_none_iff.mp h
    rcases hrunning : e.isRunning with _ | _
    · obtain ⟨hlimit, hendless⟩ := endless_of_run_eq_none hrunning hrun
      exact .run hrunning hlimit hendless
    · rw [run_of_running hrunning] at hrun
      cases hrun
  | wait =>
    have hwait : e.wait = none := Option.map_eq_none_iff.mp h
    rw [Emulator.wait] at hwait
    split at hwait
    case h_1 => cases hwait
    case h_2 => cases hwait
    case h_3 worker hactive => exact .wait (isRunning_iff.mpr ⟨worker, hactive⟩)
  | stop => cases h
  | setConfig config => cases h
  | edit f => cases h

/-! ### Many operations -/

/-- An operation as it went. -/
structure Entry where
  operation : Operation
  answer : Except Error (Option RunReport)
  /-- The emulator after the operation. -/
  after : Emulator

/-- The operations of a history as they went. -/
def log : Emulator → List Operation → List Entry
  | _, [] => []
  | e, operation :: rest =>
    match operation.apply e with
    | some (answer, after) => ⟨operation, answer, after⟩ :: after.log rest
    | none => []

/-- The emulator that a log leaves. -/
def afterLog : Emulator → List Entry → Emulator
  | e, [] => e
  | _, entry :: rest => entry.after.afterLog rest

/-- A history is carried out up to an operation that does not come back. -/
theorem stuck_of_log {history : List Operation}
    (h : history[(e.log history).length]? = some operation) :
    Stuck (e.afterLog (e.log history)) operation := by
  induction history generalizing e with
  | nil => cases h
  | cons first rest ih =>
    rw [log] at h ⊢
    split at h
    case h_1 answer after happly =>
      rw [List.length_cons, List.getElem?_cons_succ] at h
      exact ih h
    case h_2 happly =>
      cases h
      exact stuck_of_apply happly

end Emulator
end TD4
