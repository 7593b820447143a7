/-
An emulator is a plain machine.

Whatever is asked of an emulator, it shows the machine that one plain `Cpu` would
be, driven by hand:

* `Entry.move` is what is to be done to the plain machine for an operation.  It
  depends on the operation, on whether it was refused, on whether a run was left
  waiting, and on whether a report came back;
* `Serial.Moved` is a move of the plain machine, and `Serial.Replay` is many.

A replay is determined by its moves (`Serial.Replay.unique`), and `serial_replay` says
that it shows the machines and the faults of the log it replays.
-/
import TD4.Proofs.Emulator.Log

namespace TD4
namespace Emulator

/-! ### Moves of a plain machine -/

/-- What is to be done to a plain machine. -/
inductive Move
  | nothing
  | step
  | reset
  /-- Step up to the limit, or without a limit up to the first step that fails. -/
  | run
  /-- Take the first step of a run that is then left waiting. -/
  | firstStep
  | edit (f : Cpu → Cpu)
  | configure (config : RunConfig)
  /-- Tell the fault of the last run. -/
  | report

/-- What an operation is for a plain machine. -/
def Entry.move (entry : Entry) : Move :=
  match entry.answer, entry.operation with
  | .error .busy, _ => .nothing
  | _, .step => .step
  | _, .reset => .reset
  | _, .run => if entry.after.isRunning then .firstStep else .run
  | .ok none, .wait | .ok none, .stop => .nothing
  | _, .wait | _, .stop => .report
  | _, .setConfig config => .configure config
  | _, .edit f => .edit f

/-- The fault that an operation answers with, on its own or in a report. -/
def Entry.fault (entry : Entry) : Option Fault :=
  match entry.answer with
  | .error (.machine fault) => some fault
  | .ok (some report) => report.fault
  | _ => none

/-- The fault of a result. -/
def faultOf {α : Type} : Except Fault α → Option Fault
  | .ok _ => none
  | .error fault => some fault

/-- A plain machine, driven by hand. -/
structure Serial where
  cpu : Cpu
  /-- The settings given last. -/
  config : RunConfig
  /-- The fault that ended the last run. -/
  lastFault : Option Fault

namespace Serial

variable {m m₁ m₂ : Serial} {move : Move} {moves : List Move} {told told₁ told₂ : Option Fault}
  {outcomes outcomes₁ outcomes₂ : List (Option Fault × Cpu)}

/-- A move, with the fault it tells. -/
inductive Moved (m : Serial) : Move → Option Fault → Serial → Prop
  | nothing : Moved m .nothing none m
  | step {result : Except Fault Unit} {next : Cpu} (hstep : m.cpu.step = (result, next)) :
      Moved m .step (faultOf result) { m with cpu := next }
  | reset : Moved m .reset none { m with cpu := m.cpu.reset }
  | runLimited {n : UInt64} {result : Except Fault UInt64} {next : Cpu}
      (hlimit : m.config.maxSteps = some n) (hrun : m.cpu.runLimited n = (result, next)) :
      Moved m .run none { m with cpu := next, lastFault := faultOf result }
  | runUnlimited {k : Nat} {last next : Cpu} {fault : Fault} (hlimit : m.config.maxSteps = none)
      (hsteps : m.cpu.steps k = (.ok (), last)) (hstep : last.step = (.error fault, next)) :
      Moved m .run none { m with cpu := next, lastFault := some fault }
  | firstStep {next : Cpu} (hstep : m.cpu.step = (.ok (), next)) :
      Moved m .firstStep none { m with cpu := next, lastFault := none }
  | edit (f : Cpu → Cpu) : Moved m (.edit f) none { m with cpu := f m.cpu }
  | configure (config : RunConfig) : Moved m (.configure config) none { m with config }
  | report : Moved m .report m.lastFault m

/-- Many moves, each with the fault it tells and the machine after it. -/
inductive Replay : Serial → List Move → List (Option Fault × Cpu) → Prop
  | nil (m : Serial) : Replay m [] []
  | cons {m m' : Serial} {move : Move} {moves : List Move} {told : Option Fault}
      {outcomes : List (Option Fault × Cpu)} (hmove : Moved m move told m')
      (hrest : Replay m' moves outcomes) :
      Replay m (move :: moves) ((told, m'.cpu) :: outcomes)

theorem Moved.unique (h₁ : m.Moved move told₁ m₁) (h₂ : m.Moved move told₂ m₂) :
    told₁ = told₂ ∧ m₁ = m₂ := by
  cases h₁ with
  | nothing =>
    cases h₂
    exact ⟨rfl, rfl⟩
  | step hstep =>
    cases h₂ with
    | step hstep' =>
      cases hstep.symm.trans hstep'
      exact ⟨rfl, rfl⟩
  | reset =>
    cases h₂
    exact ⟨rfl, rfl⟩
  | runLimited hlimit hrun =>
    cases h₂ with
    | runLimited hlimit' hrun' =>
      cases hlimit.symm.trans hlimit'
      cases hrun.symm.trans hrun'
      exact ⟨rfl, rfl⟩
    | runUnlimited hlimit' => cases hlimit.symm.trans hlimit'
  | runUnlimited hlimit hsteps hstep =>
    cases h₂ with
    | runLimited hlimit' => cases hlimit.symm.trans hlimit'
    | runUnlimited hlimit' hsteps' hstep' =>
      -- without a limit both are the run that ends with the first fault
      have hends : Cpu.Ends none m.cpu _ _ := .fault (fun n hn => nomatch hn) hsteps hstep
      have hends' : Cpu.Ends none m.cpu _ _ := .fault (fun n hn => nomatch hn) hsteps' hstep'
      obtain ⟨hreport, hnext⟩ := hends.unique hends'
      cases hreport
      cases hnext
      exact ⟨rfl, rfl⟩
  | firstStep hstep =>
    cases h₂ with
    | firstStep hstep' =>
      cases hstep.symm.trans hstep'
      exact ⟨rfl, rfl⟩
  | edit f =>
    cases h₂
    exact ⟨rfl, rfl⟩
  | configure config =>
    cases h₂
    exact ⟨rfl, rfl⟩
  | report =>
    cases h₂
    exact ⟨rfl, rfl⟩

theorem Replay.unique (h₁ : m.Replay moves outcomes₁) (h₂ : m.Replay moves outcomes₂) :
    outcomes₁ = outcomes₂ := by
  induction h₁ generalizing outcomes₂ with
  | nil m =>
    cases h₂
    rfl
  | cons hmove hrest ih =>
    obtain _ | ⟨hmove', hrest'⟩ := h₂
    obtain ⟨htold, hm⟩ := hmove.unique hmove'
    subst htold hm
    rw [ih hrest']

end Serial

/-! ### The emulator beside the plain machine -/

/-- The fault that has ended a run. -/
def faultSoFar : Progress → Option Fault
  | .waiting _ => none
  | .ended report => report.fault

/-- A plain machine keeps step with an emulator. -/
structure Mirrors (e : Emulator) (m : Serial) : Prop where
  cpu : m.cpu = e.snapshot
  config : m.config = e.config
  fault : ∀ progress, e.active = some progress → m.lastFault = faultSoFar progress

variable {e after : Emulator} {operation : Operation} {answer : Except Error (Option RunReport)}
  {m : Serial} {report : RunReport} {cpu : Cpu} {config : RunConfig}

theorem mirrors_ofCpu (cpu : Cpu) (config : RunConfig) :
    Mirrors (ofCpu cpu config) ⟨cpu, config, none⟩ where
  cpu := rfl
  config := rfl
  fault _ hactive := nomatch hactive

/-- A run that ended is the move `run`. -/
theorem moved_run (hm : Mirrors e m) {next : Cpu}
    (hends : Cpu.Ends e.config.maxSteps e.snapshot report next) :
    m.Moved .run none { m with cpu := next, lastFault := report.fault } := by
  rw [← hm.cpu, ← hm.config] at hends
  rcases hlimit : m.config.maxSteps with _ | n
  · rw [hlimit] at hends
    cases hends with
    | limit hnone => cases hnone
    | fault _ hsteps hstep => exact .runUnlimited hlimit hsteps hstep
  · rw [hlimit] at hends
    have hmoved := Serial.Moved.runLimited hlimit hends.runLimited
    rcases hfault : report.fault with _ | fault
    · rw [hfault] at hmoved
      exact hmoved
    · rw [hfault] at hmoved
      exact hmoved

/-- The machine may change while the emulator has no run. -/
theorem mirrors_collect_setCpu (hm : Mirrors e m) (hidle : e.isRunning = false) (cpu : Cpu) :
    Mirrors (e.collect.setCpu cpu) { m with cpu } where
  cpu := rfl
  config := hm.config.trans (config_collect e).symm
  fault progress hactive := by
    have hnone : (e.collect.setCpu cpu).active = none := active_collect hidle
    rw [hnone] at hactive
    cases hactive

/-- Each way an operation can go is a move of the plain machine. -/
theorem moved_of_went (h : Went e operation answer after) (hm : Mirrors e m) :
    ∃ m', m.Moved (Entry.move ⟨operation, answer, after⟩) (Entry.fault ⟨operation, answer, after⟩) m' ∧
      Mirrors after m' := by
  cases h with
  | refused hbusy hneeds =>
    have hmove : Entry.move ⟨operation, .error .busy, e⟩ = .nothing := by
      rw [Entry.move]
    rw [hmove]
    exact ⟨m, .nothing, hm⟩
  | step hidle hstep =>
    rw [← hm.cpu] at hstep
    exact ⟨_, .step hstep, mirrors_collect_setCpu hm hidle _⟩
  | stepFault hidle hstep =>
    rw [← hm.cpu] at hstep
    exact ⟨_, .step hstep, mirrors_collect_setCpu hm hidle _⟩
  | reset hidle =>
    rw [← hm.cpu]
    exact ⟨_, .reset, mirrors_collect_setCpu hm hidle _⟩
  | run hidle hlaunched =>
    -- the limit in force is that of the settings now
    cases hlaunched with
    | ended hends =>
      refine ⟨_, moved_run hm hends, rfl, hm.config.trans (config_collect e).symm, ?_⟩
      rintro progress ⟨⟩
      rfl
    | waiting hpatience hstep =>
      have hfirst : e.snapshot.step = _ := hstep
      rw [← hm.cpu] at hfirst
      refine ⟨_, .firstStep hfirst, rfl, hm.config.trans (config_collect e).symm, ?_⟩
      rintro progress ⟨⟩
      rfl
  | noReport hawaits hactive =>
    cases operation with
    | wait => exact ⟨m, .nothing, hm⟩
    | stop => exact ⟨m, .nothing, hm⟩
    | _ => cases hawaits
  | @report operation report hawaits hactive =>
    have hmoved : m.Moved .report report.fault m := by
      have hfault := hm.fault _ hactive
      rw [faultSoFar] at hfault
      rw [← hfault]
      exact .report
    have hrecord : Mirrors (e.record report) m := ⟨hm.cpu, hm.config, fun _ hnone => nomatch hnone⟩
    cases operation with
    | wait => exact ⟨m, hmoved, hrecord⟩
    | stop => exact ⟨m, hmoved, hrecord⟩
    | _ => cases hawaits
  | stopped hactive =>
    -- its first step was taken when it was started
    have hfault := hm.fault _ hactive
    rw [faultSoFar] at hfault
    refine ⟨m, ?_, hm.cpu, hm.config, fun _ hnone => nomatch hnone⟩
    have hmoved := Serial.Moved.report (m := m)
    rw [hfault] at hmoved
    exact hmoved
  | setConfig config => exact ⟨_, .configure config, hm.cpu, rfl, hm.fault⟩
  | edit f =>
    rw [← hm.cpu]
    exact ⟨_, .edit f, rfl, hm.config, hm.fault⟩

/-- What a host sees of an operation: the fault it answers with, and the machine
after it. -/
def Entry.seen (entry : Entry) : Option Fault × Cpu := (entry.fault, entry.after.snapshot)

theorem replay_log (hm : Mirrors e m) (history : List Operation) :
    m.Replay ((e.log history).map Entry.move) ((e.log history).map Entry.seen) := by
  induction history generalizing e m with
  | nil => exact .nil m
  | cons operation rest ih =>
    rw [log]
    split
    case h_1 answer after happly =>
      obtain ⟨m', hmoved, hm'⟩ := moved_of_went (went happly) hm
      rw [List.map_cons, List.map_cons, Entry.seen, ← hm'.cpu]
      exact .cons hmoved (ih hm')
    case h_2 => exact .nil m

/-- An emulator shows, operation by operation, what one plain machine shows that
is driven by hand; and it carries out every operation that comes back.  Looking at
the machine and editing it is an operation like the others. -/
theorem serial_replay (cpu : Cpu) (config : RunConfig) (history : List Operation) :
    (∀ outcomes, (⟨cpu, config, none⟩ : Serial).Replay
        (((ofCpu cpu config).log history).map Entry.move) outcomes ↔
      outcomes = ((ofCpu cpu config).log history).map Entry.seen) ∧
    (∀ operation, history[((ofCpu cpu config).log history).length]? = some operation →
      Stuck ((ofCpu cpu config).afterLog ((ofCpu cpu config).log history)) operation) ∧
    ∀ {α : Type} (e : Emulator) (f : Cpu → α × Cpu),
      ∃ after, (Operation.edit fun cpu => (f cpu).2).apply e = some (.ok none, after) ∧
        e.withCpu f = ((f e.snapshot).1, after) := by
  have hreplay := replay_log (mirrors_ofCpu cpu config) history
  refine ⟨fun outcomes => ⟨fun h => h.unique hreplay, ?_⟩, fun operation => stuck_of_log,
    exists_apply_edit⟩
  rintro rfl
  exact hreplay

/-- A step while a slow run waits is refused; stopped after its first step, the
run tells no fault, and one that is let go on tells the halt. -/
theorem serial_replay_stop_then_wait :
    (⟨.ofImage [0x35, 0xF1], ⟨patience, some 5, 0⟩, none⟩ : Serial).Replay
      [.firstStep, .nothing, .report, .configure ⟨0, some 5, 0⟩, .run, .report]
      [(none, ((Cpu.ofImage [0x35, 0xF1]).steps 1).2),
        (none, ((Cpu.ofImage [0x35, 0xF1]).steps 1).2),
        (none, ((Cpu.ofImage [0x35, 0xF1]).steps 1).2),
        (none, ((Cpu.ofImage [0x35, 0xF1]).steps 1).2),
        (none, ((Cpu.ofImage [0x35, 0xF1]).steps 2).2),
        (some .halted, ((Cpu.ofImage [0x35, 0xF1]).steps 2).2)] :=
  ((serial_replay (.ofImage [0x35, 0xF1]) ⟨patience, some 5, 0⟩
    [.run, .step, .stop, .setConfig ⟨0, some 5, 0⟩, .run, .wait]).1 _).mpr (by decide)

end Emulator
end TD4
