/-
A machine with its run.

An `Emulator` owns one machine and at most one run.  While a run is going on,
`step`, `reset` and a second `run` are refused.  A run that has ended by itself
leaves its report behind; the report is collected by the next of these
operations, or by `wait` or `stop`, and is then the last report.

* `startRun` starts a run, and each `turn` of its worker comes later.
* `run` starts a run and looks again when the worker has had some turns.  With a
  tick that a host sits through these are all it needs, and the run has ended;
  with a longer tick it is the first one.
* `wait` collects the report of a run that ends by itself, `stop` ends it.
* `Operation.apply` carries out any operation.  It has no answer where an
  operation would not come back: a run without end, or waiting for one.

The machine may be looked at and edited at any time (`withCpu`).
-/
import TD4.RunConfig
import TD4.Worker

namespace TD4

/-- A machine with settings and at most one run. -/
structure Emulator where
  /-- The machine, and the outcomes announced by the runs so far. -/
  shared : Shared
  config : RunConfig
  /-- The run whose report has not been collected yet. -/
  active : Option Progress
  /-- The report collected last. -/
  lastReport : Option RunReport
  deriving DecidableEq

namespace Emulator

/-- Why an operation is refused or fails. -/
inductive Error
  /-- A run is going on. -/
  | busy
  /-- The machine took a step that failed. -/
  | machine (fault : Fault)
  deriving DecidableEq, Repr

/-- The wording of an error. -/
def Error.message : Error → String
  | busy => "a run is in progress"
  | machine fault => fault.message

/-- An emulator without a run. -/
def ofCpu (cpu : Cpu) (config : RunConfig) : Emulator := ⟨⟨cpu, []⟩, config, none, none⟩

/-- The machine as it is now. -/
def snapshot (e : Emulator) : Cpu := e.shared.cpu

/-- Is a run going on? -/
def isRunning (e : Emulator) : Bool :=
  match e.active with
  | some (.waiting _) => true
  | _ => false

/-- Put another machine in the place of the present one. -/
def setCpu (e : Emulator) (cpu : Cpu) : Emulator := { e with shared := { e.shared with cpu } }

/-- Look at the machine, and edit it. -/
def withCpu {α : Type} (e : Emulator) (f : Cpu → α × Cpu) : α × Emulator :=
  ((f e.shared.cpu).1, e.setCpu (f e.shared.cpu).2)

/-- Change the settings.  A run that is going on keeps those it began with. -/
def setConfig (e : Emulator) (config : RunConfig) : Emulator := { e with config }

/-- Note the report of the present run, which is over. -/
def record (e : Emulator) (report : RunReport) : Emulator :=
  { e with active := none, lastReport := some report }

/-- Collect the report of a run that has ended by itself. -/
def collect (e : Emulator) : Emulator :=
  match e.active with
  | some (.ended report) => e.record report
  | _ => e

/-- Take one step. -/
def step (e : Emulator) : Except Error Unit × Emulator :=
  if e.isRunning then (.error .busy, e)
  else
    let idle := e.collect
    match idle.snapshot.step with
    | (.ok (), cpu) => (.ok (), idle.setCpu cpu)
    | (.error fault, cpu) => (.error (.machine fault), idle.setCpu cpu)

/-- Reset the machine. -/
def reset (e : Emulator) : Except Error Unit × Emulator :=
  if e.isRunning then (.error .busy, e)
  else
    let idle := e.collect
    (.ok (), idle.setCpu idle.snapshot.reset)

/-- Start a run and come back at once, before the worker has its first turn. -/
def startRun (e : Emulator) : Except Error Unit × Emulator :=
  if e.isRunning then (.error .busy, e)
  else (.ok (), { e.collect with active := some (.waiting (.start e.config.maxSteps)) })

/-- Is there a run whose worker has not had its first turn? -/
def isStarting (e : Emulator) : Bool :=
  match e.active with
  | some (.waiting worker) => worker.steps == 0
  | _ => false

/-- The next turn of the worker, if a run is going on. -/
def turn (e : Emulator) : Option Emulator :=
  match e.active with
  | some (.waiting worker) =>
    some { e with active := some (worker.turn e.shared).1, shared := (worker.turn e.shared).2 }
  | _ => none

/-- Up to so many turns; there are fewer if the run ends before. -/
def turns : Nat → Emulator → Emulator
  | 0, e => e
  | n + 1, e =>
    match e.turn with
    | some next => next.turns n
    | none => e

/-- The wait between two steps, in milliseconds, from which on a host never sees
it end. -/
def patience : UInt64 := 10000

/-- Start a run and look again: after its first turn if the tick is too long to sit
through, and after all the turns it can need otherwise.  A run that is going on even
then goes on for ever. -/
def run (e : Emulator) : Option (Except Error Unit × Emulator) :=
  match e.startRun with
  | (.error error, refused) => some (.error error, refused)
  | (.ok (), started) =>
    if patience ≤ started.config.tickMs then some (.ok (), started.turns 1)
    else
      let last := started.turns (Worker.turnsFor started.config.maxSteps)
      if last.isRunning then none else some (.ok (), last)

/-- Stop the run, if there is one, and collect its report.  A run that is going
on ends where it waits. -/
def stop (e : Emulator) : Option RunReport × Emulator :=
  match e.active with
  | none => (none, e)
  | some (.ended report) => (some report, e.record report)
  | some (.waiting worker) =>
    let report : RunReport := ⟨worker.steps, none⟩
    (some report, { e with shared := e.shared.announce none }.record report)

/-- Wait for the run to end by itself, if there is one, and collect its report.
There is no coming back from a run that waits for a tick without end. -/
def wait (e : Emulator) : Option (Option RunReport × Emulator) :=
  match e.active with
  | none => some (none, e)
  | some (.ended report) => some (some report, e.record report)
  | some (.waiting _) => none

/-- The emulator at its end: a run that is going on is stopped.  Its worker looks for
that only after a turn, so a run that has had none takes its first one before. -/
def drop (e : Emulator) : Emulator := (if e.isStarting then e.turns 1 else e).stop.2

/-- What can be asked of an emulator. -/
inductive Operation
  | step
  | reset
  | run
  | wait
  | stop
  | setConfig (config : RunConfig)
  /-- Edit the machine. -/
  | edit (f : Cpu → Cpu)

/-- Carry out an operation.  Where it answers with a report, it may be that there
is none. -/
def Operation.apply : Operation → Emulator →
    Option (Except Error (Option RunReport) × Emulator)
  | .step, e => some (e.step.1.map fun _ => none, e.step.2)
  | .reset, e => some (e.reset.1.map fun _ => none, e.reset.2)
  | .run, e => e.run.map fun (result, next) => (result.map fun _ => none, next)
  | .wait, e => e.wait.map fun (report, next) => (.ok report, next)
  | .stop, e => some (.ok e.stop.1, e.stop.2)
  | .setConfig config, e => some (.ok none, e.setConfig config)
  | .edit f, e => some (.ok none, e.setCpu (f e.snapshot))

end Emulator
end TD4
