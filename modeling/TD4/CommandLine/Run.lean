/-
Running a program to its end.

The program is run by a worker without any stop from outside, up to a limit on
its steps, and the machine is shown as it is then.

* `RunRequest.settings` says where each setting of a run comes from: the option,
  else the file with settings, else the default;
* `respondRun` answers a request.

The wait between two steps decides how long a run takes, and nothing else.
-/
import TD4.CommandLine.Response
import TD4.RunConfig
import TD4.Snapshot
import TD4.Worker

namespace TD4
namespace CommandLine

/-- A register as a line shows it. -/
def registerText (b : UInt8) : String := inTwo b ++ " (" ++ inFourBits b ++ ")"

/-- The machine, a line for each register. -/
def stateLines (cpu : Cpu) : List String :=
  ["PC:    " ++ inTwo cpu.regs.pc,
    "A:     " ++ registerText cpu.regs.a,
    "B:     " ++ registerText cpu.regs.b,
    "IN:    " ++ registerText cpu.regs.input,
    "OUT:   " ++ registerText cpu.regs.output,
    "Carry: " ++ toString cpu.regs.carry,
    "State: " ++ String.ofList cpu.status.name]

/-- The machine as it is shown after a run. -/
def resultLines (json : Bool) (cpu : Cpu) : List String :=
  if json then [String.ofList cpu.toJson.pretty] else stateLines cpu

/-- What is shown above the result of a run. -/
def runHeader (program : List Char) (report : RunReport) : List String :=
  ["🔧 Running: " ++ String.ofList program, "", "━━━ Result ━━━",
    "Steps: " ++ toString report.steps]

/-- The answer after a run. -/
def runResponse (program : List Char) (json : Bool) (report : RunReport) (cpu : Cpu) : Response :=
  let lines := runHeader program report ++ resultLines json cpu
  match report.fault with
  | some .halted => ⟨lines ++ ["✓ Halted"], .success⟩
  | some fault => .failed lines (faultComplaint cpu.regs.pc fault)
  | none =>
    ⟨lines ++ ["⚠️  Stopped before halting. Use --max-steps to run longer."], .success⟩

/-- Run a program under settings, and show the machine. -/
def runProgram (files : FileView) (program : List Char) (config : RunConfig) (json : Bool) :
    Response :=
  loadOr files program [] fun rom =>
    match Worker.runToEnd config.maxSteps ⟨machine rom config.input, []⟩ with
    | (.ended report, s) => runResponse program json report s.cpu
    | (.waiting worker, s) => runResponse program json ⟨worker.steps, none⟩ s.cpu

/-- The limit of a run that is given none. -/
def defaultMaxSteps : UInt64 := 10000

/-- The settings of a run: those of the file, each replaced by the option if it
is given. -/
def RunRequest.settings (request : RunRequest) (config : RunConfig) : RunConfig :=
  { tickMs := request.tickMs.getD config.tickMs
    maxSteps := request.maxSteps.or config.maxSteps
    input := request.input.getD config.input }

/-- The settings in the file of a request, or the defaults if it names none. -/
def RunRequest.baseSettings (request : RunRequest) (files : FileView) :
    Except String RunConfig :=
  match request.config with
  | none => .ok .default
  | some path =>
    match RunConfig.load files path with
    | .ok config => .ok config
    | .error e => .error ("Failed to load config " ++ String.ofList path ++ ": " ++ e.message)

/-- Answer a request to run a program. -/
def respondRun (files : FileView) (request : RunRequest) : Response :=
  match request.baseSettings files with
  | .error complaint => .failed [] complaint
  | .ok base =>
    runProgram files request.program ((request.settings base).orMaxSteps defaultMaxSteps)
      request.json

end CommandLine
end TD4
