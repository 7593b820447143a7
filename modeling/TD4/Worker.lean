/-
The worker that carries out a run.

A worker takes steps of a machine it shares with its host, and waits between
two steps.  During a wait the host may edit the machine, and at its end either
the time is over or the worker is told to stop.

* `turn` is what a worker does between two waits: it ends at its limit, ends
  with the fault of a step that fails, or waits again;
* `follow` is a run under a schedule of waits;
* `finish` is a run in which every wait passes without an edit, and
  `runToEnd` allows it as many turns as it can need.

When a run ends the worker announces the outcome, once: the fault, or nothing
if it was stopped or reached its limit.
-/
import TD4.Cpu

namespace TD4

/-- What is known of a run that has ended. -/
structure RunReport where
  /-- The successful steps of the run. -/
  steps : Nat
  /-- The fault that ended the run; none if it was stopped or reached its limit. -/
  fault : Option Fault
  deriving DecidableEq, Repr

/-- What a worker shares with its host. -/
structure Shared where
  cpu : Cpu
  /-- The outcomes announced so far, in order. -/
  calls : List (Option Fault)
  deriving DecidableEq

/-- Announce the outcome of a run. -/
def Shared.announce (s : Shared) (outcome : Option Fault) : Shared :=
  { s with calls := s.calls ++ [outcome] }

/-- A worker between two turns. -/
structure Worker where
  /-- The most successful steps to take. -/
  limit : Option UInt64
  /-- The successful steps so far. -/
  steps : Nat
  deriving DecidableEq, Repr

/-- How far a run has got. -/
inductive Progress
  | waiting (worker : Worker)
  | ended (report : RunReport)
  deriving DecidableEq, Repr

/-- How a wait ends. -/
inductive Signal
  /-- The time is over. -/
  | elapsed
  /-- The worker is told to stop. -/
  | stop
  deriving DecidableEq, Repr

/-- A wait: what the host does to the machine meanwhile, and how it ends. -/
structure Wait where
  edit : Cpu → Cpu
  signal : Signal

/-- A wait that passes without an edit. -/
def Wait.quiet : Wait := ⟨id, .elapsed⟩

namespace Worker

/-- A worker that has taken no step. -/
def start (limit : Option UInt64) : Worker := ⟨limit, 0⟩

/-- Has the worker taken as many steps as it may? -/
def atLimit (w : Worker) : Bool :=
  match w.limit with
  | some n => decide (n.toNat ≤ w.steps)
  | none => false

/-- End a run with an outcome. -/
def endWith (w : Worker) (outcome : Option Fault) (s : Shared) : Progress × Shared :=
  (.ended ⟨w.steps, outcome⟩, s.announce outcome)

/-- One turn: at most one step. -/
def turn (w : Worker) (s : Shared) : Progress × Shared :=
  if w.atLimit then w.endWith none s
  else
    match s.cpu.step with
    | (.ok (), cpu) => (.waiting { w with steps := w.steps + 1 }, { s with cpu })
    | (.error fault, cpu) => w.endWith (some fault) { s with cpu }

/-- Run under a schedule.  If the schedule is over before the run is, the
worker is left waiting. -/
def follow : List Wait → Worker → Shared → Progress × Shared
  | schedule, w, s =>
    match w.turn s with
    | (.ended report, s) => (.ended report, s)
    | (.waiting w, s) =>
      match schedule with
      | [] => (.waiting w, s)
      | wait :: rest =>
        let s := { s with cpu := wait.edit s.cpu }
        match wait.signal with
        | .stop => w.endWith none s
        | .elapsed => follow rest w s

/-- Take up to a number of turns. -/
def finish : Nat → Worker → Shared → Progress × Shared
  | 0, w, s => (.waiting w, s)
  | n + 1, w, s =>
    match w.turn s with
    | (.ended report, s) => (.ended report, s)
    | (.waiting w, s) => finish n w s

/-- A program that takes so many turns without ending goes on for ever.  After
one step the program counter is a nibble, and from then on a step depends on two
registers and the program counter, of which only the low nibbles count, and on
two flags. -/
def horizon : Nat := 16 * 16 * 16 * 4 + 2

/-- The turns that a run can need to end. -/
def turnsFor : Option UInt64 → Nat
  | some limit => limit.toNat + 1
  | none => horizon

/-- Run to the end.  A run that never ends is left waiting. -/
def runToEnd (limit : Option UInt64) (s : Shared) : Progress × Shared :=
  (start limit).finish (turnsFor limit) s

end Worker
end TD4
