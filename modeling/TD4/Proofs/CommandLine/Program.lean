/-
Another program in place of the first.

Whatever options a command line gives for a program, there is a command line that
gives the same options for any other one (`exists_words_withProgram`): the words
that are options stay where they are, the operand is left out, and the other
program comes last, behind two dashes, so that it may look like anything.
-/
import TD4.Proofs.CommandLine.Words

namespace TD4
namespace CommandLine

/-- The program that an invocation runs, traces or lists. -/
def Invocation.program? : Invocation → Option (List Char)
  | .run request => some request.program
  | .trace program _ _ => some program
  | .disassemble program => some program
  | _ => none

/-- The same to be done with another program. -/
def Invocation.withProgram (program : List Char) : Invocation → Invocation
  | .run request => .run { request with program }
  | .trace _ input steps => .trace program input steps
  | .disassemble _ => .disassemble program
  | other => other

variable {ι : Type} [DecidableEq ι] {specs : List (OptionSpec ι)} {words : List (List Char)}
  {items : List (Item ι)} {waiting : Option ι} {word program other : List Char}
  {invocation : Invocation}

/-! ### Sorted words -/

/-- The same values are given for the same options. -/
def SameOptions (items others : List (Item ι)) : Prop :=
  ∀ key, valuesOf key items = valuesOf key others

theorem SameOptions.single?_eq {others : List (Item ι)} (h : SameOptions items others) {α : Type}
    (key : ι) (read : List Char → Option α) : single? key read items = single? key read others := by
  rw [single?, h]
  rfl

theorem SameOptions.given?_eq {others : List (Item ι)} (h : SameOptions items others) (key : ι) :
    given? key items = given? key others := by
  rw [given?, h]
  rfl

theorem SameOptions.append {others : List (Item ι)} (h : SameOptions items others)
    (first : List (Item ι)) : SameOptions (first ++ items) (first ++ others) := by
  intro key
  rw [valuesOf, valuesOf, List.filterMap_append, List.filterMap_append]
  exact congrArg _ (h key)

theorem SameOptions.operands (word : List Char) (words : List (List Char)) :
    SameOptions [.operand word] (words.map (Item.operand (ι := ι))) := by
  intro key
  rw [valuesOf, valuesOf, List.filterMap_map]
  exact (List.filterMap_eq_nil_iff.mpr fun _ _ => rfl).symm

/-- Any text can be made the only operand, with all options as they are. -/
theorem exists_scan_operand (h : scan specs waiting words = some items) (other : List Char) :
    ∃ changed found, scan specs waiting changed = some found ∧ operandsOf found = [other] ∧
      SameOptions found items := by
  induction words generalizing waiting items with
  | nil =>
    rcases waiting with _ | key
    · cases h
      exact ⟨[['-', '-'], other], [.operand other], rfl, rfl, .operands other []⟩
    · cases h
  | cons word rest ih =>
    rcases waiting with _ | key
    · by_cases hend : word = ['-', '-']
      · subst hend
        cases h
        exact ⟨[['-', '-'], other], [.operand other], rfl, rfl, .operands other rest⟩
      · rcases hlooks : looksLikeOption word with _ | _
        · -- the operand that was is left out
          rw [scan_operand hlooks] at h
          obtain ⟨more, hmore, rfl⟩ := Option.map_eq_some_iff.mp h
          obtain ⟨changed, found, hscan, honly, hsame⟩ := ih hmore
          exact ⟨changed, found, hscan, honly, hsame⟩
        · obtain ⟨sorted, hsorted, heq⟩ := exists_sorted specs hlooks hend
          rw [heq] at h
          obtain ⟨⟨first, after⟩, hfirst, hmap⟩ := Option.bind_eq_some_iff.mp h
          obtain ⟨more, hmore, rfl⟩ := Option.map_eq_some_iff.mp hmap
          obtain ⟨changed, found, hscan, honly, hsame⟩ := ih hmore
          refine ⟨word :: changed, first ++ found, ?_, ?_, hsame.append first⟩
          · rw [heq, hfirst, Option.bind_some, hscan]
            rfl
          · rw [operandsOf_append, hsorted first after hfirst, honly]
            rfl
    · -- the word is the value of the option
      rw [scan] at h
      split at h
      case isTrue => cases h
      case isFalse hlooks =>
        obtain ⟨more, hmore, rfl⟩ := Option.map_eq_some_iff.mp h
        obtain ⟨changed, found, hscan, honly, hsame⟩ := ih hmore
        refine ⟨word :: changed, .option key (some word) :: found, ?_, honly, hsame.append [_]⟩
        rw [scan, if_neg hlooks, hscan]
        rfl

/-! ### Commands -/

theorem exists_scanCommand {specs : List (OptionSpec Key)} {items : List (Item Key)}
    (h : scanCommand specs words = some (program, items)) (other : List Char) :
    ∃ changed found, scanCommand specs changed = some (other, found) ∧ SameOptions found items := by
  rw [scanCommand] at h
  obtain ⟨sorted, hsorted, hrest⟩ := Option.bind_eq_some_iff.mp h
  obtain ⟨verbose, hverbose, hoperand⟩ := Option.bind_eq_some_iff.mp hrest
  split at hoperand <;> cases hoperand
  obtain ⟨changed, found, hscan, honly, hsame⟩ := exists_scan_operand hsorted other
  refine ⟨changed, found, ?_, hsame⟩
  rw [← hsame.given?_eq] at hverbose
  simp only [scanCommand, hscan, hverbose, honly, Option.bind_eq_bind, Option.bind_some]

/-- What is made of one operand and the options can be made of any other one. -/
theorem exists_parse {specs : List (OptionSpec Key)}
    {build : List Char × List (Item Key) → Option Invocation}
    (hbuild : ∀ {program items found}, SameOptions found items →
      build (other, found) = (build (program, items)).map (Invocation.withProgram other))
    (h : (scanCommand specs words).bind build = some invocation) :
    ∃ changed, (scanCommand specs changed).bind build = some (invocation.withProgram other) := by
  obtain ⟨⟨program, items⟩, hscan, hrest⟩ := Option.bind_eq_some_iff.mp h
  obtain ⟨changed, found, hchanged, hsame⟩ := exists_scanCommand hscan other
  refine ⟨changed, ?_⟩
  rw [hchanged, Option.bind_some, hbuild hsame, hrest]
  rfl

theorem exists_parseRun (h : parseRun? words = some invocation) (other : List Char) :
    ∃ changed, parseRun? changed = some (invocation.withProgram other) := by
  rw [parseRun?] at h
  refine exists_parse (fun hsame => ?_) h
  simp only [hsame.single?_eq, hsame.given?_eq, Option.bind_eq_bind, Option.map_bind,
    Function.comp_def, Option.map_some]
  rfl

theorem exists_parseTrace (h : parseTrace? words = some invocation) (other : List Char) :
    ∃ changed, parseTrace? changed = some (invocation.withProgram other) := by
  rw [parseTrace?] at h
  refine exists_parse (fun hsame => ?_) h
  simp only [hsame.single?_eq, Option.bind_eq_bind, Option.map_bind, Function.comp_def,
    Option.map_some]
  rfl

theorem exists_parseDisassemble (h : parseDisassemble? words = some invocation)
    (other : List Char) :
    ∃ changed, parseDisassemble? changed = some (invocation.withProgram other) := by
  rw [parseDisassemble?] at h
  exact exists_parse (fun _ => rfl) h

theorem exists_parseCommand {name : List Char} (h : parseCommand? name words = some invocation)
    (hprogram : invocation.program? = some program) (other : List Char) :
    ∃ changed, parseCommand? name changed = some (invocation.withProgram other) := by
  rw [parseCommand?] at h
  split at h
  case isTrue hrun => simpa only [parseCommand?, if_pos hrun] using exists_parseRun h other
  case isFalse hrun =>
    split at h
    case isTrue htrace =>
      simpa only [parseCommand?, if_neg hrun, if_pos htrace] using exists_parseTrace h other
    case isFalse htrace =>
      split at h
      case isTrue =>
        rw [parseAssemble?] at h
        obtain ⟨_, -, hrest⟩ := Option.bind_eq_some_iff.mp h
        obtain ⟨_, -, heq⟩ := Option.bind_eq_some_iff.mp hrest
        cases heq
        cases hprogram
      case isFalse hasm =>
        split at h
        case isTrue hdisasm =>
          simpa only [parseCommand?, if_neg hrun, if_neg htrace, if_neg hasm, if_pos hdisasm]
            using exists_parseDisassemble h other
        case isFalse => cases h

/-- Every command line about a program has its like about any other one. -/
theorem exists_words_withProgram (h : Invocation.parse? words = some invocation)
    (hprogram : invocation.program? = some program) (other : List Char) :
    ∃ changed, Invocation.parse? changed = some (invocation.withProgram other) := by
  rcases exists_command_of_parseFrom h with (rfl | rfl) | ⟨front, name, rest, hcommand, hothers⟩
  · cases hprogram
  · cases hprogram
  · obtain ⟨changed, hchanged⟩ := exists_parseCommand hcommand hprogram other
    exact ⟨front ++ name :: changed, (hothers changed).trans hchanged⟩

end CommandLine
end TD4
