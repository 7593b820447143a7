/-
Running and tracing agree.

Both commands take the steps of the same machine, one with a worker and one by
itself.  `Finished` lists the ways this comes to an end, each with what the two
commands print last, and `exists_finished` says that it does come to an end.

* `stepLine` is the line of a successful step, told by the steps alone;
* `Agree` says what the answers have to do with each other, by what their lines show;
* `run_trace_agree` is about any program file and any tree of files.
-/
import TD4.CommandLine.Execute
import TD4.Proofs.CommandLine.Columns
import TD4.Proofs.CommandLine.Words
import TD4.Proofs.Json.Pretty
import TD4.Proofs.Json.Snapshot
import TD4.Proofs.Worker.RunToEnd

namespace TD4
namespace CommandLine

/-! ### The lines of a trace -/

/-- The line of the successful step after a number of steps. -/
def stepLine (cpu : Cpu) (j : Nat) : String :=
  traceLine (cpu.steps j).2.regs.pc ((cpu.steps j).2.rom.fetch (cpu.steps j).2.regs.pc)
    (cpu.steps (j + 1)).2

/-- The lines of the first successful steps. -/
def stepLines (cpu : Cpu) (k : Nat) : List String := (List.range k).map (stepLine cpu)

variable {cpu last next : Cpu} {fault : Fault} {k : Nat} {limit : UInt64} {lines : List String}

theorem stepLines_succ (h : cpu.step = (.ok (), next)) (k : Nat) :
    stepLines cpu (k + 1)
      = traceLine cpu.regs.pc (cpu.rom.fetch cpu.regs.pc) next :: stepLines next k := by
  have hsteps : ∀ j, cpu.steps (j + 1) = next.steps j := fun j => by
    rw [Cpu.steps, h]
  rw [stepLines, List.range_succ_eq_map, List.map_cons, List.map_map, stepLine, hsteps]
  refine congrArg _ (List.map_congr_left fun j _ => ?_)
  rw [Function.comp_apply, stepLine, hsteps, hsteps]
  rfl

theorem length_stepLines (cpu : Cpu) (k : Nat) : (stepLines cpu k).length = k := by
  rw [stepLines, List.length_map, List.length_range]

/-- The line of a step is there, and shows the step. -/
theorem shows_stepLines (hbounded : cpu.regs.Bounded) {j : Nat} (hj : j < k) (title : String)
    (lines : List String) :
    Shows (title :: stepLines cpu k ++ lines) (j + 1)
      (StepLine (cpu.steps j).2.regs.pc ((cpu.steps j).2.rom.fetch (cpu.steps j).2.regs.pc)
        (cpu.steps (j + 1)).2.regs) := by
  refine ⟨stepLine cpu j, ?_, stepLine_traceLine (Cpu.bounded_steps hbounded j).pc _
    (Cpu.bounded_steps hbounded (j + 1))⟩
  rw [List.cons_append, List.getElem?_cons_succ,
    List.getElem?_append_left (hj.trans_eq (length_stepLines cpu k).symm), stepLines,
    List.getElem?_map, List.getElem?_range hj]
  rfl

/-- The line of the last step shows the registers that the steps leave behind. -/
theorem registers_of_last_line (hbounded : cpu.regs.Bounded) (h : cpu.steps k = (.ok (), last))
    (hk : 0 < k) {title : String} {pc byte : UInt8} {shown : Registers}
    (hshown : Shows (title :: stepLines cpu k ++ lines) k (StepLine pc byte shown)) :
    shown.a = last.regs.a ∧ shown.b = last.regs.b ∧ shown.output = last.regs.output := by
  obtain ⟨m, rfl⟩ := Nat.exists_eq_add_of_lt hk
  rw [Nat.zero_add] at h hshown
  obtain ⟨line, hline, hshows⟩ := hshown
  obtain ⟨line', hline', hshows'⟩ := shows_stepLines hbounded (Nat.lt_succ_self m) title lines
  rw [h] at hshows'
  cases hline.symm.trans hline'
  -- one line shows one value of each register
  obtain ⟨-, ha, hb, hout, -⟩ := hshows.unique hshows'
  exact ⟨ha, hb, hout⟩

/-- Successful steps have a line each. -/
theorem traceFrom_of_steps (h : cpu.steps k = (.ok (), last)) (m : Nat) :
    traceFrom (k + m) lines cpu = traceFrom m ((stepLines cpu k).reverse ++ lines) last := by
  induction k generalizing cpu lines with
  | zero =>
    cases h
    rw [Nat.zero_add]
    rfl
  | succ k ih =>
    obtain ⟨next, hstep, hrest⟩ := Cpu.exists_step_of_steps h
    rw [Nat.succ_add, traceFrom, hstep]
    simp only
    rw [ih hrest, stepLines_succ hstep, List.reverse_cons, List.append_assoc]
    rfl

theorem traceFrom_of_ok (h : cpu.steps k = (.ok (), last)) :
    traceFrom k [] cpu = (stepLines cpu k, .limit) := by
  have htrace : traceFrom k [] cpu = traceFrom 0 ((stepLines cpu k).reverse ++ []) last :=
    traceFrom_of_steps h 0
  rw [htrace, traceFrom, List.append_nil, List.reverse_reverse]

theorem traceFrom_of_halt {n : Nat} (hk : k < n) (h : cpu.steps k = (.ok (), last))
    (hstep : last.step = (.error .halted, next)) :
    traceFrom n [] cpu = (stepLines cpu k ++ [haltLine last.regs.pc (last.rom.fetch last.regs.pc),
      "✓ Halted after " ++ toString next.cycles.toNat ++ " steps"], .halted) := by
  obtain ⟨m, rfl⟩ := Nat.exists_eq_add_of_lt hk
  rw [Nat.add_assoc, traceFrom_of_steps h, traceFrom, hstep]
  simp

theorem traceFrom_of_fault {n : Nat} (hk : k < n) (h : cpu.steps k = (.ok (), last))
    (hstep : last.step = (.error fault, next)) (hfault : fault ≠ .halted) :
    traceFrom n [] cpu = (stepLines cpu k, .fault last.regs.pc fault) := by
  obtain ⟨m, rfl⟩ := Nat.exists_eq_add_of_lt hk
  rw [Nat.add_assoc, traceFrom_of_steps h, traceFrom, hstep, List.append_nil]
  split
  case h_1 heq => cases heq
  case h_2 heq =>
    cases heq
    exact absurd rfl hfault
  case h_3 heq =>
    cases heq
    rw [List.reverse_reverse]

/-! ### How both commands end -/

/-- The ways in which taking steps comes to an end: the report and the machine at
the end, the last lines of a run and of a trace, the exit code and the complaint. -/
inductive Finished (cpu : Cpu) (limit : UInt64) :
    RunReport → Cpu → List String → List String → Nat → Option String → Prop
  | limit {last : Cpu} (hsteps : cpu.steps limit.toNat = (.ok (), last)) :
      Finished cpu limit ⟨limit.toNat, none⟩ last
        ["⚠️  Stopped before halting. Use --max-steps to run longer."]
        ["⚠️  Reached step limit (" ++ toString limit.toNat ++ "). Use --steps to increase."] 0 none
  | halt {k : Nat} {last next : Cpu} (hk : k < limit.toNat) (hsteps : cpu.steps k = (.ok (), last))
      (hstep : last.step = (.error .halted, next)) :
      Finished cpu limit ⟨k, some .halted⟩ next ["✓ Halted"]
        [haltLine last.regs.pc (last.rom.fetch last.regs.pc),
          "✓ Halted after " ++ toString k ++ " steps"] 0 none
  | fault {k : Nat} {last next : Cpu} {fault : Fault} (hk : k < limit.toNat)
      (hsteps : cpu.steps k = (.ok (), last)) (hstep : last.step = (.error fault, next))
      (hfault : fault ≠ .halted) :
      Finished cpu limit ⟨k, some fault⟩ next [] [] 1
        (some ("❌ " ++ faultComplaint last.regs.pc fault))

variable {program : List Char} {input : UInt8} {tree : FileTree} {rom : Rom} {report : RunReport}
  {runTail traceTail : List String} {exitCode : Nat} {complaint : Option String}

/-- Taking steps comes to an end. -/
theorem exists_finished (cpu : Cpu) (limit : UInt64) :
    ∃ report next runTail traceTail exitCode complaint,
      Finished cpu limit report next runTail traceTail exitCode complaint := by
  rcases Cpu.steps_cases cpu limit.toNat with ⟨last, hsteps⟩ | ⟨k, last, fault, next, hk, hsteps, hstep⟩
  · exact ⟨_, _, _, _, _, _, .limit hsteps⟩
  · by_cases hfault : fault = .halted
    · subst hfault
      exact ⟨_, _, _, _, _, _, .halt hk hsteps hstep⟩
    · exact ⟨_, _, _, _, _, _, .fault hk hsteps hstep hfault⟩

theorem Finished.ends (h : Finished cpu limit report next runTail traceTail exitCode complaint) :
    Cpu.Ends (some limit) cpu report next := by
  have hroom : ∀ {k : Nat}, k < limit.toNat → ∀ n, some limit = some n → k < n.toNat := by
    rintro k hk n ⟨⟩
    exact hk
  cases h with
  | limit hsteps => exact .limit rfl hsteps
  | halt hk hsteps hstep => exact .fault (hroom hk) hsteps hstep
  | fault hk hsteps hstep => exact .fault (hroom hk) hsteps hstep

theorem fst_settle_runResponse
    (h : Finished cpu limit report next runTail traceTail exitCode complaint)
    (program : List Char) (json : Bool) (tree : FileTree) :
    ((runResponse program json report next).settle tree).1 = ⟨exitCode,
      runHeader program report ++ resultLines json next ++ runTail, complaint⟩ := by
  cases h with
  | limit => rfl
  | halt => rfl
  | fault hk hsteps hstep hfault =>
    -- a run gives the address after the step that failed, which is the one before it
    rw [runResponse, List.append_nil, ← (Cpu.shown_of_step_fault hstep).1]
    split
    case h_1 heq =>
      cases heq
      exact absurd rfl hfault
    case h_2 heq =>
      cases heq
      rfl
    case h_3 heq => cases heq

theorem execute_runWords (tree : FileTree) (hprogram : looksLikeOption program = false)
    (hinput : input.toNat ≤ 15) (limit : UInt64) (json : Bool) :
    execute tree (runWords program input limit json)
      = (runProgram tree.read program ⟨1, some limit, input⟩ json).settle tree := by
  rw [execute, parse?_runWords hprogram hinput]
  rfl

theorem execute_traceWords (tree : FileTree) (hprogram : looksLikeOption program = false)
    (hinput : input.toNat ≤ 15) (limit : UInt64) :
    execute tree (traceWords program input limit)
      = (traceProgram tree.read program input limit).settle tree := by
  rw [execute, parse?_traceWords hprogram hinput]
  rfl

/-- The answer to running a program that loads, under settings with a limit. -/
theorem fst_settle_runProgram (hload : Image.loadProgram tree.read program = .ok rom)
    (h : Finished (machine rom input) limit report next runTail traceTail exitCode complaint)
    (tickMs : UInt64) (json : Bool) :
    ((runProgram tree.read program ⟨tickMs, some limit, input⟩ json).settle tree).1 = ⟨exitCode,
      runHeader program report ++ resultLines json next ++ runTail, complaint⟩ := by
  rw [runProgram, loadOr, hload]
  simp only
  rw [Worker.runToEnd_of_ends h.ends]
  exact fst_settle_runResponse h program json tree

theorem fst_execute_runWords (hprogram : looksLikeOption program = false)
    (hinput : input.toNat ≤ 15) (hload : Image.loadProgram tree.read program = .ok rom)
    (h : Finished (machine rom input) limit report next runTail traceTail exitCode complaint)
    (json : Bool) :
    (execute tree (runWords program input limit json)).1 = ⟨exitCode,
      runHeader program report ++ resultLines json next ++ runTail, complaint⟩ := by
  rw [execute_runWords tree hprogram hinput]
  exact fst_settle_runProgram hload h 1 json

/-- The answer to tracing a program that loads. -/
theorem fst_execute_traceWords (hprogram : looksLikeOption program = false)
    (hinput : input.toNat ≤ 15) (hload : Image.loadProgram tree.read program = .ok rom)
    (h : Finished (machine rom input) limit report next runTail traceTail exitCode complaint) :
    (execute tree (traceWords program input limit)).1 = ⟨exitCode,
      "━━━ Trace ━━━" :: stepLines (machine rom input) report.steps ++ traceTail, complaint⟩ := by
  rw [execute_traceWords tree hprogram hinput, traceProgram, loadOr, hload]
  simp only
  cases h with
  | limit hsteps =>
    rw [traceFrom_of_ok hsteps]
    rfl
  | @halt k last next hk hsteps hstep =>
    -- the machine has counted from zero, and cannot have come round within the limit
    have hcycles : next.cycles.toNat = k := by
      rw [(Cpu.shown_of_step_fault hstep).2.2.2.2, Cpu.cycles_steps hsteps]
      show (0 + UInt64.ofNat k).toNat = k
      rw [UInt64.zero_add, UInt64.toNat_ofNat_of_lt' (Nat.lt_trans hk limit.toNat_lt)]
    rw [traceFrom_of_halt hk hsteps hstep, hcycles]
    rfl
  | fault hk hsteps hstep hfault =>
    rw [traceFrom_of_fault hk hsteps hstep hfault, List.append_nil]
    rfl

/-! ### What the answers have to do with each other -/

/-- The answers to running a machine up to a limit (`run`, and `dump` for the one
that shows JSON) and to tracing it, where so many steps succeed. -/
structure Agree (cpu : Cpu) (limit : UInt64) (run dump trace : Report) (k : Nat) : Prop where
  /-- So many steps succeed, and the next one fails or is beyond the limit. -/
  count : (cpu.steps k).1 = .ok () ∧ k ≤ limit.toNat ∧
    (k = limit.toNat ∨ (cpu.steps (k + 1)).1 ≠ .ok ())
  steps : run.lines[3]? = some ("Steps: " ++ toString k)
  title : trace.lines.head? = some "━━━ Trace ━━━"
  /-- Each step has a line with the address and the byte it was fetched from, and with the
  registers after it. -/
  lines : ∀ j < k, Shows trace.lines (j + 1)
    (StepLine (cpu.steps j).2.regs.pc ((cpu.steps j).2.rom.fetch (cpu.steps j).2.regs.pc)
      (cpu.steps (j + 1)).2.regs)
  /-- Behind these lines there is a shorter one for the jump that halts. -/
  halt_iff : run.lines.getLast? = some "✓ Halted" ↔
    ∃ short, HaltLine (cpu.steps k).2.regs.pc short.toList ∧
      trace.lines.drop (k + 1) = [short, "✓ Halted after " ++ toString k ++ " steps"]
  halt_iff_steps : run.lines.getLast? = some "✓ Halted" ↔
    (cpu.steps limit.toNat).1 = .error .halted
  stop_iff : run.lines.getLast?
      = some "⚠️  Stopped before halting. Use --max-steps to run longer." ↔
    trace.lines.drop (k + 1)
      = ["⚠️  Reached step limit (" ++ toString limit.toNat ++ "). Use --steps to increase."]
  stop_iff_steps : run.lines.getLast?
      = some "⚠️  Stopped before halting. Use --max-steps to run longer." ↔
    (cpu.steps limit.toNat).1 = .ok ()
  stop_count : run.lines.getLast?
      = some "⚠️  Stopped before halting. Use --max-steps to run longer." → k = limit.toNat
  /-- Any other fault is complained about, with the address where it happened. -/
  fault : ∀ fault, (cpu.steps limit.toNat).1 = .error fault → fault ≠ .halted →
    trace.lines.drop (k + 1) = [] ∧ run.exitCode = 1 ∧ trace.exitCode = 1 ∧
      run.complaint = trace.complaint ∧ trace.complaint = some ("❌ " ++ ("CPU error at PC="
        ++ toString (cpu.steps k).2.regs.pc.toNat ++ ": " ++ fault.message))
  /-- The registers after the run are those that the last full line shows. -/
  registers : 0 < k → ∀ pc byte shown, Shows trace.lines k (StepLine pc byte shown) →
    Shows run.lines 5 (RegisterLine "A:     " shown.a) ∧
      Shows run.lines 6 (RegisterLine "B:     " shown.b) ∧
      Shows run.lines 8 (RegisterLine "OUT:   " shown.output)
  /-- The object after the run is the machine that the trace ends on. -/
  object : ∃ text, dump.lines[4]? = some text ∧
    (Json.parse? text.toList).bind Cpu.ofJson? = some (cpu.steps limit.toNat).2

theorem steps_limit (h : Finished cpu limit report next runTail traceTail exitCode complaint) :
    cpu.steps limit.toNat = (match report.fault with
      | some fault => .error fault
      | none => .ok (), next) := by
  cases h with
  | limit hsteps => exact hsteps
  | halt hk hsteps hstep => exact Cpu.steps_of_fault hsteps hstep hk
  | fault hk hsteps hstep => exact Cpu.steps_of_fault hsteps hstep hk

theorem exists_steps_count
    (h : Finished cpu limit report next runTail traceTail exitCode complaint) :
    ∃ last, cpu.steps report.steps = (.ok (), last) ∧ report.steps ≤ limit.toNat ∧
      (report.steps = limit.toNat ∨ (cpu.steps (report.steps + 1)).1 ≠ .ok ()) ∧
      next.regs.a = last.regs.a ∧ next.regs.b = last.regs.b ∧
      next.regs.output = last.regs.output := by
  have hfailed : ∀ {k : Nat} {last next : Cpu} {fault : Fault}, cpu.steps k = (.ok (), last) →
      last.step = (.error fault, next) → (cpu.steps (k + 1)).1 ≠ .ok () := by
    intro k last next fault hsteps hstep
    rw [Cpu.steps_succ_of_ok hsteps, hstep]
    exact nofun
  cases h with
  | limit hsteps => exact ⟨_, hsteps, Nat.le_refl _, .inl rfl, rfl, rfl, rfl⟩
  | halt hk hsteps hstep =>
    obtain ⟨-, ha, hb, hout, -⟩ := Cpu.shown_of_step_fault hstep
    exact ⟨_, hsteps, Nat.le_of_lt hk, .inr (hfailed hsteps hstep), ha, hb, hout⟩
  | fault hk hsteps hstep =>
    obtain ⟨-, ha, hb, hout, -⟩ := Cpu.shown_of_step_fault hstep
    exact ⟨_, hsteps, Nat.le_of_lt hk, .inr (hfailed hsteps hstep), ha, hb, hout⟩

theorem steps_eq_limit_iff
    (h : Finished cpu limit report next runTail traceTail exitCode complaint) :
    report.steps = limit.toNat ↔ (cpu.steps limit.toNat).1 = .ok () := by
  rw [steps_limit h]
  cases h with
  | limit => exact iff_of_true rfl rfl
  | halt hk => exact iff_of_false hk.ne nofun
  | fault hk => exact iff_of_false hk.ne nofun

/-- The machine is shown in a line about its state at the end, or as an object. -/
theorem getLast?_shown_ne {line : String} (hstate : line.toList.head? ≠ some 'S')
    (hobject : line.toList.head? ≠ some '\x7b') (header : List String) (json : Bool) (cpu : Cpu) :
    (header ++ resultLines json cpu).getLast? ≠ some line := by
  rw [List.getLast?_append]
  cases json with
  | false =>
    intro heq
    have hline : "State: " ++ String.ofList cpu.status.name = line := Option.some.inj heq
    rw [← hline, String.toList_append] at hstate
    exact hstate rfl
  | true =>
    intro heq
    have hline : String.ofList cpu.toJson.pretty = line := Option.some.inj heq
    rw [← hline, String.toList_ofList] at hobject
    exact hobject rfl

theorem run_halts_iff (h : Finished cpu limit report next runTail traceTail exitCode complaint)
    (program : List Char) (json : Bool) :
    (runHeader program report ++ resultLines json next ++ runTail).getLast? = some "✓ Halted" ↔
      (cpu.steps limit.toNat).1 = .error .halted := by
  rw [steps_limit h]
  cases h with
  | limit =>
    refine iff_of_false ?_ nofun
    rw [List.getLast?_concat]
    decide
  | halt => exact iff_of_true List.getLast?_concat rfl
  | fault _ _ _ hfault =>
    rw [List.append_nil]
    refine iff_of_false (getLast?_shown_ne (by decide) (by decide) _ _ _) ?_
    rintro ⟨⟩
    exact hfault rfl

theorem run_stops_iff (h : Finished cpu limit report next runTail traceTail exitCode complaint)
    (program : List Char) (json : Bool) :
    (runHeader program report ++ resultLines json next ++ runTail).getLast?
        = some "⚠️  Stopped before halting. Use --max-steps to run longer." ↔
      report.steps = limit.toNat := by
  cases h with
  | limit => exact iff_of_true List.getLast?_concat rfl
  | halt hk =>
    refine iff_of_false ?_ hk.ne
    rw [List.getLast?_concat]
    decide
  | fault hk =>
    rw [List.append_nil]
    exact iff_of_false (getLast?_shown_ne (by decide) (by decide) _ _ _) hk.ne

theorem trace_halts_iff (h : Finished cpu limit report next runTail traceTail exitCode complaint)
    {last : Cpu} (hlast : cpu.steps report.steps = (.ok (), last)) :
    (∃ short, HaltLine last.regs.pc short.toList ∧
        traceTail = [short, "✓ Halted after " ++ toString report.steps ++ " steps"]) ↔
      (cpu.steps limit.toNat).1 = .error .halted := by
  rw [steps_limit h]
  cases h with
  | limit =>
    -- one line is not two
    refine iff_of_false ?_ nofun
    rintro ⟨short, -, heq⟩
    exact List.cons_ne_nil _ _ (List.cons.inj heq).2.symm
  | halt _ hsteps hstep =>
    cases hsteps.symm.trans hlast
    exact iff_of_true ⟨_, haltLine_haltLine (Cpu.atSelfJump_of_step_halted hstep), rfl⟩ rfl
  | fault _ _ _ hfault =>
    refine iff_of_false ?_ ?_
    · rintro ⟨short, -, heq⟩
      exact (List.cons_ne_nil _ _).symm heq
    · rintro ⟨⟩
      exact hfault rfl

theorem trace_stops_iff (h : Finished cpu limit report next runTail traceTail exitCode complaint) :
    traceTail = ["⚠️  Reached step limit (" ++ toString limit.toNat ++ "). Use --steps to increase."] ↔
      report.steps = limit.toNat := by
  cases h with
  | limit => exact iff_of_true rfl rfl
  | halt hk => exact iff_of_false (fun heq => List.cons_ne_nil _ _ (List.cons.inj heq).2) hk.ne
  | fault hk => exact iff_of_false (List.cons_ne_nil _ _).symm hk.ne

/-- The answers to commands that come to the same end agree. -/
theorem agree_of_finished (hbounded : cpu.regs.Bounded)
    (h : Finished cpu limit report next runTail traceTail exitCode complaint)
    (program : List Char) :
    Agree cpu limit
      ⟨exitCode, runHeader program report ++ resultLines false next ++ runTail, complaint⟩
      ⟨exitCode, runHeader program report ++ resultLines true next ++ runTail, complaint⟩
      ⟨exitCode, "━━━ Trace ━━━" :: stepLines cpu report.steps ++ traceTail, complaint⟩
      report.steps := by
  obtain ⟨last, hlast, hle, hcount, ha, hb, hout⟩ := exists_steps_count h
  have hlength : ("━━━ Trace ━━━" :: stepLines cpu report.steps).length = report.steps + 1 := by
    rw [List.length_cons, length_stepLines]
  have htail : ("━━━ Trace ━━━" :: stepLines cpu report.steps ++ traceTail).drop (report.steps + 1)
      = traceTail := List.drop_left' hlength
  have hsteps := steps_limit h
  have hnext : next.regs.Bounded := by
    have hlimit := Cpu.bounded_steps hbounded limit.toNat
    rwa [hsteps] at hlimit
  constructor
  case count => exact ⟨by rw [hlast], hle, hcount⟩
  case steps => rfl
  case title => rfl
  case lines => exact fun j hj => shows_stepLines hbounded hj _ _
  case halt_iff =>
    rw [htail, hlast]
    exact (run_halts_iff h _ _).trans (trace_halts_iff h hlast).symm
  case halt_iff_steps => exact run_halts_iff h _ _
  case stop_iff =>
    rw [htail]
    exact (run_stops_iff h _ _).trans (trace_stops_iff h).symm
  case stop_iff_steps => exact (run_stops_iff h _ _).trans (steps_eq_limit_iff h)
  case stop_count => exact (run_stops_iff h _ _).mp
  case fault =>
    intro fault hfault hne
    rw [htail, hlast]
    rw [hsteps] at hfault
    cases h with
    | limit => cases hfault
    | halt =>
      cases hfault
      exact absurd rfl hne
    | fault _ hsteps' =>
      cases hfault
      cases hsteps'.symm.trans hlast
      exact ⟨rfl, rfl, rfl, rfl, rfl⟩
  case registers =>
    intro hk pc byte shown hshown
    obtain ⟨hshownA, hshownB, hshownOut⟩ := registers_of_last_line hbounded hlast hk hshown
    -- a step that fails changes none of the three
    rw [hshownA, hshownB, hshownOut, ← ha, ← hb, ← hout]
    exact ⟨⟨_, rfl, registerLine_registerText _ hnext.a⟩,
      ⟨_, rfl, registerLine_registerText _ hnext.b⟩,
      ⟨_, rfl, registerLine_registerText _ hnext.output⟩⟩
  case object =>
    refine ⟨_, rfl, ?_⟩
    rw [hsteps, String.toList_ofList, Json.parse?_pretty]
    exact Cpu.ofJson?_toJson next

/-! ### Command lines -/

/-- The answer where a program does not load. -/
def notLoaded (program : List Char) (e : Image.Error) : Report :=
  .failed [] ("Failed to load " ++ String.ofList program ++ ": " ++ e.message)

theorem fst_execute_runWords_of_error {e : Image.Error} (hprogram : looksLikeOption program = false)
    (hinput : input.toNat ≤ 15) (hload : Image.loadProgram tree.read program = .error e)
    (limit : UInt64) (json : Bool) :
    (execute tree (runWords program input limit json)).1 = notLoaded program e := by
  rw [execute_runWords tree hprogram hinput, runProgram, loadOr, hload]
  rfl

theorem fst_execute_traceWords_of_error {e : Image.Error}
    (hprogram : looksLikeOption program = false) (hinput : input.toNat ≤ 15)
    (hload : Image.loadProgram tree.read program = .error e) (limit : UInt64) :
    (execute tree (traceWords program input limit)).1 = notLoaded program e := by
  rw [execute_traceWords tree hprogram hinput, traceProgram, loadOr, hload]
  rfl

theorem fst_execute_of_parse?_eq_none {words : List (List Char)}
    (h : Invocation.parse? words = none) : (execute tree words).1 = .usage := by
  rw [execute, h]

/-- **Running and tracing agree.**  On the same files they give the same exit code and the
same complaint.  They print nothing if the program does not load, and otherwise their
answers agree.  A program whose name looks like an option is not even looked for. -/
theorem run_trace_agree (tree : FileTree) (program : List Char) {input : UInt8}
    (hinput : input.toNat ≤ 15) (limit : UInt64) :
    let run := (execute tree (runWords program input limit false)).1
    let dump := (execute tree (runWords program input limit true)).1
    let trace := (execute tree (traceWords program input limit)).1
    (run.exitCode = trace.exitCode ∧ run.complaint = trace.complaint) ∧
      (dump.exitCode = trace.exitCode ∧ dump.complaint = trace.complaint) ∧
      (∀ e, Image.loadProgram tree.read program = .error e → run.lines = [] ∧ trace.lines = []) ∧
      ∀ rom, looksLikeOption program = false → Image.loadProgram tree.read program = .ok rom →
        ∃ k, Agree (machine rom input) limit run dump trace k := by
  intro run dump trace
  by_cases hprogram : looksLikeOption program = true
  · -- the command lines are both used wrongly
    have hrun : run = .usage :=
      fst_execute_of_parse?_eq_none (parse?_runWords_eq_none hprogram input limit false)
    have hdump : dump = .usage :=
      fst_execute_of_parse?_eq_none (parse?_runWords_eq_none hprogram input limit true)
    have htrace : trace = .usage :=
      fst_execute_of_parse?_eq_none (parse?_traceWords_eq_none hprogram input limit)
    rw [hrun, hdump, htrace]
    refine ⟨⟨rfl, rfl⟩, ⟨rfl, rfl⟩, fun _ _ => ⟨rfl, rfl⟩, fun rom hplain => ?_⟩
    rw [hprogram] at hplain
    cases hplain
  · rw [Bool.not_eq_true] at hprogram
    rcases hload : Image.loadProgram tree.read program with e | rom
    · have hrun : run = notLoaded program e :=
        fst_execute_runWords_of_error hprogram hinput hload limit false
      have hdump : dump = notLoaded program e :=
        fst_execute_runWords_of_error hprogram hinput hload limit true
      have htrace : trace = notLoaded program e :=
        fst_execute_traceWords_of_error hprogram hinput hload limit
      rw [hrun, hdump, htrace]
      exact ⟨⟨rfl, rfl⟩, ⟨rfl, rfl⟩, fun _ _ => ⟨rfl, rfl⟩, nofun⟩
    · obtain ⟨report, next, runTail, traceTail, exitCode, complaint, hfinished⟩ :=
        exists_finished (machine rom input) limit
      have hrun : run = _ := fst_execute_runWords hprogram hinput hload hfinished false
      have hdump : dump = _ := fst_execute_runWords hprogram hinput hload hfinished true
      have htrace : trace = _ := fst_execute_traceWords hprogram hinput hload hfinished
      rw [hrun, hdump, htrace]
      refine ⟨⟨rfl, rfl⟩, ⟨rfl, rfl⟩, nofun, ?_⟩
      rintro _ - ⟨⟩
      exact ⟨report.steps, agree_of_finished Registers.Bounded.zero.setInput hfinished program⟩

/-- A program that shows its input at the output port, and halts before the limit. -/
theorem run_trace_agree_echo :
    (5 : UInt8).toNat ≤ 15 ∧
      (execute ⟨[(["echo".toList], .file [0x20, 0x40, 0x90, 0xF3])], []⟩
          (traceWords "echo".toList 5 9)).1.lines = ["━━━ Trace ━━━",
        "00: 20  in a         A= 5 B= 0 OUT= 0 C=0", "01: 40  mov b, a     A= 5 B= 5 OUT= 0 C=0",
        "02: 90  out b        A= 5 B= 5 OUT= 5 C=0", "03: F3  jmp 3", "✓ Halted after 3 steps"] ∧
      ∃ k, Agree (machine (.ofImage [0x20, 0x40, 0x90, 0xF3]) 5) 9
        (execute ⟨[(["echo".toList], .file [0x20, 0x40, 0x90, 0xF3])], []⟩
          (runWords "echo".toList 5 9 false)).1
        (execute ⟨[(["echo".toList], .file [0x20, 0x40, 0x90, 0xF3])], []⟩
          (runWords "echo".toList 5 9 true)).1
        (execute ⟨[(["echo".toList], .file [0x20, 0x40, 0x90, 0xF3])], []⟩
          (traceWords "echo".toList 5 9)).1 k :=
  ⟨by decide, by decide +kernel,
    (run_trace_agree ⟨[(["echo".toList], .file [0x20, 0x40, 0x90, 0xF3])], []⟩
      "echo".toList (by decide) 9).2.2.2 _ rfl rfl⟩

end CommandLine
end TD4
