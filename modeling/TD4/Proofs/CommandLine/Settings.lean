/-
Settings from options and from a file.

A setting of a run is given by its option or, without one, by the file with settings.
Such a command line does what another one does that names no file and gives all
settings as options (`RunRequest.spelledOut`).

* `parse?_settingWords`: there is such a command line, since an input that was accepted
  is a nibble, whether it stood among the words (`input_le_of_parse`) or in the file
  (`input_le_of_load`);
* `respondRun_spelledOut`: both are answered alike;
* `exists_runWithin`: the answer tells whether the run was stopped by its limit.

`settings_combined` is about all command lines that name a file with settings.
-/
import TD4.Proofs.CommandLine.RunAndTrace

namespace TD4
namespace CommandLine

variable {ι : Type} [DecidableEq ι] {words : List (List Char)} {program path : List Char}
  {input : UInt8} {request : RunRequest} {config : RunConfig} {files : FileView} {tree : FileTree}

/-! ### Inputs are nibbles -/

theorem le_of_nibble? {text : List Char} (h : nibble? text = some input) : input.toNat ≤ 15 := by
  simp only [nibble?] at h
  split at h
  case h_1 n _ =>
    split at h
    case isTrue hn =>
      cases h
      rw [UInt8.toNat_ofNat_of_lt' (Nat.lt_trans hn (by decide))]
      exact Nat.le_of_lt_succ hn
    case isFalse => cases h
  case h_2 => cases h

theorem exists_of_single? {α : Type} {key : ι} {read : List Char → Option α} {items : List (Item ι)}
    {value : α} (h : single? key read items = some (some value)) : ∃ text, read text = some value := by
  rw [single?] at h
  split at h
  case h_1 => cases h
  case h_2 text _ =>
    obtain ⟨_, hread, heq⟩ := Option.map_eq_some_iff.mp h
    cases heq
    exact ⟨text, hread⟩
  case h_3 => cases h

theorem input_le_of_parseRun (h : parseRun? words = some (.run request))
    (hinput : request.input = some input) : input.toNat ≤ 15 := by
  rw [parseRun?] at h
  obtain ⟨⟨program, items⟩, -, h⟩ := Option.bind_eq_some_iff.mp h
  obtain ⟨given, hgiven, h⟩ := Option.bind_eq_some_iff.mp h
  obtain ⟨_, -, h⟩ := Option.bind_eq_some_iff.mp h
  obtain ⟨_, -, h⟩ := Option.bind_eq_some_iff.mp h
  obtain ⟨_, -, h⟩ := Option.bind_eq_some_iff.mp h
  obtain ⟨_, -, h⟩ := Option.bind_eq_some_iff.mp h
  cases h
  cases hinput
  obtain ⟨text, htext⟩ := exists_of_single? hgiven
  exact le_of_nibble? htext

/-- A program is run by the command of that name only. -/
theorem parseRun_of_parseCommand {name : List Char}
    (h : parseCommand? name words = some (.run request)) : parseRun? words = some (.run request) := by
  rw [parseCommand?] at h
  split at h
  case isTrue => exact h
  case isFalse =>
    split at h
    case isTrue =>
      rw [parseTrace?] at h
      obtain ⟨_, -, h⟩ := Option.bind_eq_some_iff.mp h
      obtain ⟨_, -, h⟩ := Option.bind_eq_some_iff.mp h
      obtain ⟨_, -, h⟩ := Option.bind_eq_some_iff.mp h
      cases h
    case isFalse =>
      split at h
      case isTrue =>
        rw [parseAssemble?] at h
        obtain ⟨_, -, h⟩ := Option.bind_eq_some_iff.mp h
        obtain ⟨_, -, h⟩ := Option.bind_eq_some_iff.mp h
        cases h
      case isFalse =>
        split at h
        case isTrue =>
          rw [parseDisassemble?] at h
          obtain ⟨_, -, h⟩ := Option.bind_eq_some_iff.mp h
          cases h
        case isFalse => cases h

theorem input_le_of_parse (h : Invocation.parse? words = some (.run request))
    (hinput : request.input = some input) : input.toNat ≤ 15 := by
  rcases exists_command_of_parseFrom h with (heq | heq) | ⟨_, name, rest, hcommand, -⟩
  · cases heq
  · cases heq
  · exact input_le_of_parseRun (parseRun_of_parseCommand hcommand) hinput

theorem input_le_of_load (h : RunConfig.load files path = .ok config) : config.input.toNat ≤ 15 := by
  rw [RunConfig.load] at h
  split at h
  case h_1 text _ =>
    rw [RunConfig.ofText] at h
    split at h
    case h_1 =>
      split at h
      case isTrue => cases h
      case isFalse hle =>
        cases h
        exact Nat.le_of_not_lt hle
    case h_2 => cases h
  case h_2 => cases h

/-! ### All settings as options -/

/-- The words that run a program and give all settings.  The program may look like
anything. -/
def settingWords (program : List Char) (input : UInt8) (tickMs limit : UInt64) (json : Bool) :
    List (List Char) :=
  ["run".toList, "-i".toList, Text.decimal input.toNat, "-t".toList, Text.decimal tickMs.toNat,
    "-m".toList, Text.decimal limit.toNat] ++ (if json then ["--json".toList] else [])
    ++ ["--".toList, program]

theorem scan_settingWords (program : List Char) (input : UInt8) (tickMs limit : UInt64)
    (json : Bool) :
    scan runSpecs none (settingWords program input tickMs limit json).tail
      = some ([.option .input (some (Text.decimal input.toNat)),
          .option .tickMs (some (Text.decimal tickMs.toNat)),
          .option .maxSteps (some (Text.decimal limit.toNat))]
          ++ (if json then [.option .json none] else []) ++ [.operand program]) := by
  show scan runSpecs none
    (['-', 'i'] :: _ :: ['-', 't'] :: _ :: ['-', 'm'] :: _ :: (_ ++ [['-', '-'], program])) = _
  rw [scan_option (by decide) (by rfl) rfl (looksLikeOption_decimal _),
    scan_option (by decide) (by rfl) rfl (looksLikeOption_decimal _),
    scan_option (by decide) (by rfl) rfl (looksLikeOption_decimal _)]
  cases json <;> rfl

theorem parse?_settingWords (program : List Char) (hinput : input.toNat ≤ 15)
    (tickMs limit : UInt64) (json : Bool) :
    Invocation.parse? (settingWords program input tickMs limit json)
      = some (.run ⟨program, some input, some tickMs, some limit, none, json⟩) := by
  have hscan := scan_settingWords program input tickMs limit json
  show parseRun? (settingWords program input tickMs limit json).tail = _
  rw [parseRun?, scanCommand, hscan]
  cases json <;>
    simp [given?, valuesOf, operandsOf, single?, nibble?_decimal hinput, word?_decimal]

/-- A request that names no file and gives all settings: those that it gave before, and
those of the file in the place of the others. -/
def RunRequest.spelledOut (request : RunRequest) (config : RunConfig) : RunRequest :=
  { request with
    input := some (request.input.getD config.input)
    tickMs := some (request.tickMs.getD config.tickMs)
    maxSteps := some ((request.maxSteps.or config.maxSteps).getD 10000)
    config := none }

theorem exists_words_spelledOut (hwords : Invocation.parse? words = some (.run request))
    (hload : RunConfig.load files path = .ok config) :
    ∃ others, Invocation.parse? others = some (.run (request.spelledOut config)) := by
  have hinput : (request.input.getD config.input).toNat ≤ 15 := by
    rcases hgiven : request.input with _ | input
    · exact input_le_of_load hload
    · exact input_le_of_parse hwords hgiven
  exact ⟨_, parse?_settingWords request.program hinput _ _ request.json⟩

/-- The settings that a run is carried out under. -/
theorem respondRun_of_load (hpath : request.config = some path)
    (hload : RunConfig.load files path = .ok config) :
    respondRun files request = runProgram files request.program
      ⟨request.tickMs.getD config.tickMs, some ((request.maxSteps.or config.maxSteps).getD 10000),
        request.input.getD config.input⟩ request.json := by
  have hbase : request.baseSettings files = .ok config := by
    rw [RunRequest.baseSettings, hpath]
    simp only [hload]
  rw [respondRun, hbase]
  rfl

theorem respondRun_spelledOut (hpath : request.config = some path)
    (hload : RunConfig.load files path = .ok config) :
    respondRun files request = respondRun files (request.spelledOut config) := by
  rw [respondRun_of_load hpath hload]
  rfl

/-! ### Runs up to the limit -/

/-- The answer to a run of a machine up to a limit, in which so many steps succeed. -/
structure RunWithin (cpu : Cpu) (limit : UInt64) (answer : Report) (k : Nat) : Prop where
  ended : ∃ fault shared, Worker.runToEnd (some limit) ⟨cpu, []⟩ = (.ended ⟨k, fault⟩, shared)
  /-- So many steps succeed, and the next one fails or is beyond the limit. -/
  count : (cpu.steps k).1 = .ok () ∧ k ≤ limit.toNat ∧
    (k = limit.toNat ∨ (cpu.steps (k + 1)).1 ≠ .ok ())
  steps : answer.lines[3]? = some ("Steps: " ++ toString k)
  stop_iff : answer.lines.getLast?
    = some "⚠️  Stopped before halting. Use --max-steps to run longer." ↔ k = limit.toNat

theorem exists_runWithin {rom : Rom} (hload : Image.loadProgram tree.read program = .ok rom)
    (input : UInt8) (tickMs limit : UInt64) (json : Bool) :
    ∃ k, RunWithin (machine rom input) limit
      ((runProgram tree.read program ⟨tickMs, some limit, input⟩ json).settle tree).1 k := by
  obtain ⟨report, next, runTail, traceTail, exitCode, complaint, hfinished⟩ :=
    exists_finished (machine rom input) limit
  obtain ⟨last, hlast, hle, hcount, -⟩ := exists_steps_count hfinished
  have hanswer := fst_settle_runProgram hload hfinished tickMs json
  refine ⟨report.steps, ⟨report.fault, _, Worker.runToEnd_of_ends hfinished.ends⟩,
    ⟨by rw [hlast], hle, hcount⟩, ?_, ?_⟩
  · rw [hanswer]
    rfl
  · rw [hanswer]
    exact run_stops_iff hfinished program json

/-- **Options and a file with settings are combined setting by setting.**  A command
line that names a file with settings does the same as one that gives all settings as
options, each as it was given before, else as it is in the file, with a limit of 10000
if there is none.  So the run ends within the limit, and says that it was stopped if
the limit was reached.  If the settings cannot be read, nothing is run. -/
theorem settings_combined (tree : FileTree)
    (hwords : Invocation.parse? words = some (.run request)) (hpath : request.config = some path) :
    (∀ config, RunConfig.load tree.read path = .ok config →
        ((∃ others, Invocation.parse? others = some (.run (request.spelledOut config))) ∧
          ∀ others, Invocation.parse? others = some (.run (request.spelledOut config)) →
            execute tree words = execute tree others) ∧
        ∀ rom, Image.loadProgram tree.read request.program = .ok rom →
          ∃ k, RunWithin (machine rom (request.input.getD config.input))
            ((request.maxSteps.or config.maxSteps).getD 10000) (execute tree words).1 k) ∧
      ∀ e, RunConfig.load tree.read path = .error e →
        (execute tree words).1.exitCode = 1 ∧ (execute tree words).1.lines = [] ∧
          (execute tree words).2 = tree := by
  refine ⟨fun config hload => ⟨⟨exists_words_spelledOut hwords hload, fun others hothers => ?_⟩,
    fun rom hrom => ?_⟩, fun e hload => ?_⟩
  · rw [execute, execute, hwords, hothers]
    exact congrArg (Response.settle · tree) (respondRun_spelledOut hpath hload)
  · rw [execute, hwords]
    simp only [respond, respondRun_of_load hpath hload]
    exact exists_runWithin hrom _ _ _ request.json
  · have hbase : ∃ complaint, request.baseSettings tree.read = .error complaint := by
      rw [RunRequest.baseSettings, hpath]
      simp only [hload]
      exact ⟨_, rfl⟩
    obtain ⟨complaint, hbase⟩ := hbase
    rw [execute, hwords]
    simp only [respond, respondRun, hbase]
    exact ⟨rfl, rfl, rfl⟩

/-- The input is taken from the file, the limit is not, and the wait is nowhere given. -/
theorem settings_combined_input :
    execute ⟨[(["p".toList], .file [0x20, 0x40, 0x90, 0xF3]),
          (["c".toList], .file [0x7B, 0x22, 0x69, 0x6E, 0x70, 0x75, 0x74, 0x22, 0x3A, 0x39, 0x7D])],
          []⟩ ["run".toList, "p".toList, "-cc".toList, "-m2".toList]
        = execute ⟨[(["p".toList], .file [0x20, 0x40, 0x90, 0xF3]),
          (["c".toList], .file [0x7B, 0x22, 0x69, 0x6E, 0x70, 0x75, 0x74, 0x22, 0x3A, 0x39, 0x7D])],
          []⟩ ["run".toList, "p".toList, "-i9".toList, "-t1".toList, "-m2".toList] ∧
      ∃ k, RunWithin (machine (.ofImage [0x20, 0x40, 0x90, 0xF3]) 9) 2
        (execute ⟨[(["p".toList], .file [0x20, 0x40, 0x90, 0xF3]),
          (["c".toList], .file [0x7B, 0x22, 0x69, 0x6E, 0x70, 0x75, 0x74, 0x22, 0x3A, 0x39, 0x7D])],
          []⟩ ["run".toList, "p".toList, "-cc".toList, "-m2".toList]).1 k := by
  have hwords : Invocation.parse? ["run".toList, "p".toList, "-cc".toList, "-m2".toList]
      = some (.run ⟨"p".toList, none, none, some 2, some "c".toList, false⟩) := by
    decide
  have hload : RunConfig.load (FileTree.read ⟨[(["p".toList], .file [0x20, 0x40, 0x90, 0xF3]),
      (["c".toList], .file [0x7B, 0x22, 0x69, 0x6E, 0x70, 0x75, 0x74, 0x22, 0x3A, 0x39, 0x7D])], []⟩)
      "c".toList = .ok ⟨1, none, 9⟩ := by
    decide
  obtain ⟨⟨-, halike⟩, hwithin⟩ := (settings_combined _ hwords rfl).1 _ hload
  exact ⟨halike _ (by decide), hwithin _ (by decide)⟩

end CommandLine
end TD4
