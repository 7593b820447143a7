/-
Command lines that run and trace a program.

* `scan_operand` and `scan_option`: what a single word, or an option with the word
  after it, is sorted into;
* `exists_command_of_parseFrom`: the words before a command only lead up to it;
* `parse?_runWords` and `parse?_traceWords`: what the words are read as.

A program whose name looks like an option is not taken for an operand, and there
is no other word that could be one, so that the command line is used wrongly.
-/
import TD4.CommandLine.Invocation
import TD4.Proofs.Text.Numeral

namespace TD4
namespace CommandLine

variable {ι : Type} {specs : List (OptionSpec ι)} {word value : List Char} {rest : List (List Char)}
  {spec : OptionSpec ι}

/-! ### Values -/

theorem looksLikeOption_decimal (n : Nat) : looksLikeOption (Text.decimal n) = false := by
  obtain ⟨c, digits, hdigits⟩ := List.exists_cons_of_ne_nil (Text.decimal_ne_nil n)
  have hc : c.isDigit = true := Text.isDigit_of_mem_decimal (n := n) (by simp [hdigits])
  rw [hdigits, looksLikeOption.eq_def]
  split
  case h_1 heq =>
    cases heq
    exact absurd hc (by decide)
  case h_2 => rfl

theorem word?_decimal (w : UInt64) : word? (Text.decimal w.toNat) = some w := by
  rw [word?, Text.signless?_of_natural? (Text.natural?_decimal _)]
  show (if w.toNat < UInt64.size then some (UInt64.ofNat w.toNat) else none) = some w
  rw [if_pos w.toNat_lt, UInt64.ofNat_toNat]

theorem not_cons_dash (h : looksLikeOption word = false) (c : Char) (letters : List Char) :
    word ≠ '-' :: c :: letters := by
  rintro rfl
  cases h

theorem nibble?_decimal {b : UInt8} (h : b.toNat ≤ 15) :
    nibble? (Text.decimal b.toNat) = some b := by
  have hdash : ∀ digits, Text.decimal b.toNat ≠ '-' :: digits := by
    intro digits hdigits
    have hc : '-'.isDigit = true := Text.isDigit_of_mem_decimal (n := b.toNat) (by simp [hdigits])
    cases hc
  rw [nibble?]
  · rw [Text.signless?_of_natural? (Text.natural?_decimal _)]
    show (if b.toNat < 16 then some (UInt8.ofNat b.toNat) else none) = some b
    rw [if_pos (Nat.lt_succ_of_le h), UInt8.ofNat_toNat]
  · exact hdash

/-! ### Sorting -/

theorem scan_operand (h : looksLikeOption word = false) :
    scan specs none (word :: rest) = (scan specs none rest).map (.operand word :: ·) := by
  rw [scan, if_neg (not_cons_dash h _ _)]
  · rfl
  · exact fun name => not_cons_dash h _ _
  · exact not_cons_dash h

/-- An option that takes a value, and its value in the next word. -/
theorem scan_option {c : Char} (hc : c ≠ '-')
    (hspec : (specs.find? fun spec => spec.short == some c) = some spec)
    (htakes : spec.takesValue = true) (h : looksLikeOption value = false) :
    scan specs none (['-', c] :: value :: rest)
      = (scan specs none rest).map (.option spec.key (some value) :: ·) := by
  have hword : ['-', c] ≠ ['-', '-'] := by
    rintro ⟨⟩
    exact hc rfl
  have hsorted : scanShort specs [c] = some ([], some spec.key) := by
    rw [scanShort, hspec]
    simp only [htakes, if_true]
  rw [scan, if_neg hword]
  · simp only [hsorted]
    rw [scan, h, if_neg Bool.false_ne_true, Option.map_map]
    rfl
  · exact hc

/-! ### Words that look like options -/

theorem operandsOf_append (items others : List (Item ι)) :
    operandsOf (items ++ others) = operandsOf items ++ operandsOf others :=
  List.filterMap_append

theorem operandsOf_map_operand (words : List (List Char)) :
    operandsOf (words.map (Item.operand (ι := ι))) = words := by
  rw [operandsOf, List.filterMap_map]
  exact List.filterMap_some

theorem operandsOf_of_scanLong {name : List Char} {items : List (Item ι)} {waiting : Option ι}
    (h : scanLong specs name = some (items, waiting)) : operandsOf items = [] := by
  rw [scanLong] at h
  split at h
  case h_1 => cases h
  case h_2 =>
    split at h
    case h_1 =>
      split at h <;> cases h <;> rfl
    case h_2 =>
      split at h <;> cases h
      rfl

theorem operandsOf_of_scanShort {letters : List Char} {items : List (Item ι)} {waiting : Option ι}
    (h : scanShort specs letters = some (items, waiting)) : operandsOf items = [] := by
  induction letters generalizing items waiting with
  | nil =>
    cases h
    rfl
  | cons c letters ih =>
    rw [scanShort.eq_def] at h
    simp only at h
    split at h
    case h_1 => cases h
    case h_2 =>
      split at h
      case isTrue =>
        split at h <;> cases h <;> rfl
      case isFalse =>
        obtain ⟨⟨more, after⟩, hmore, heq⟩ := Option.map_eq_some_iff.mp h
        cases heq
        have hnone := ih hmore
        exact hnone

/-- A word that looks like an option is sorted without an operand. -/
theorem exists_sorted (specs : List (OptionSpec ι)) (h : looksLikeOption word = true)
    (hend : word ≠ ['-', '-']) :
    ∃ sorted : Option (List (Item ι) × Option ι),
      (∀ items waiting, sorted = some (items, waiting) → operandsOf items = []) ∧
      ∀ rest, scan specs none (word :: rest)
        = sorted.bind fun p => (scan specs p.2 rest).map (p.1 ++ ·) := by
  rw [looksLikeOption.eq_def] at h
  split at h
  case h_2 => cases h
  case h_1 c letters =>
    -- after two dashes stands a long name, after one are letters
    by_cases hc : c = '-'
    · subst hc
      refine ⟨scanLong specs letters, fun _ _ => operandsOf_of_scanLong, fun rest => ?_⟩
      rw [scan, if_neg hend]
      rcases scanLong specs letters with _ | ⟨items, waiting⟩
      · rfl
      · rfl
    · refine ⟨scanShort specs (c :: letters), fun _ _ => operandsOf_of_scanShort, fun rest => ?_⟩
      rw [scan, if_neg hend]
      · rcases scanShort specs (c :: letters) with _ | ⟨items, waiting⟩
        · rfl
        · rfl
      · exact hc

/-- If the first word looks like an option, there is not exactly one operand
among words that are options otherwise. -/
theorem operandsOf_scan {items others : List (Item ι)} {next : List Char}
    (h : looksLikeOption word = true) (hnext : looksLikeOption next = true) (hrest : rest ≠ [])
    (hothers : scan specs none (next :: rest) = some others) (hnone : operandsOf others = [])
    (hscan : scan specs none (word :: next :: rest) = some items) :
    (operandsOf items).length ≠ 1 := by
  by_cases hend : word = ['-', '-']
  · -- now all other words are operands
    subst hend
    rw [scan, if_pos rfl] at hscan
    cases hscan
    rw [operandsOf_map_operand, List.length_cons, ne_eq, Nat.add_eq_right, List.length_eq_zero_iff]
    exact hrest
  · obtain ⟨sorted, hsorted, heq⟩ := exists_sorted specs h hend
    rw [heq] at hscan
    obtain ⟨⟨first, waiting⟩, rfl, hmap⟩ := Option.bind_eq_some_iff.mp hscan
    obtain ⟨more, hmore, rfl⟩ := Option.map_eq_some_iff.mp hmap
    rcases waiting with _ | key
    · rw [hothers] at hmore
      cases hmore
      rw [operandsOf_append, hsorted first none rfl, hnone]
      exact nofun
    · -- an option cannot be the value of another one
      rw [scan, if_pos hnext] at hmore
      cases hmore

theorem scanCommand_eq_none {specs : List (OptionSpec Key)} {words : List (List Char)}
    (h : ∀ items, scan specs none words = some items → (operandsOf items).length ≠ 1) :
    scanCommand specs words = none := by
  rw [scanCommand]
  rcases hscan : scan specs none words with _ | items
  · rfl
  · have hlength := h items hscan
    show (given? .verbose items).bind _ = none
    rw [Option.bind_eq_none_iff]
    intro verbose _
    split
    case h_1 operand hone =>
      rw [hone] at hlength
      exact absurd rfl hlength
    case h_2 => rfl

/-! ### Whole command lines -/

/-- What is asked for comes from a command, if it is more than what needs none.  Then
the words before the command are read in the same way whatever comes behind it. -/
theorem exists_command_of_parseFrom {verbose : Bool} {words : List (List Char)}
    {invocation : Invocation} (h : parseFrom? verbose words = some invocation) :
    (invocation = .banner ∨ invocation = .version) ∨ ∃ front name rest,
      parseCommand? name rest = some invocation ∧
        ∀ others, parseFrom? verbose (front ++ name :: others) = parseCommand? name others := by
  induction words generalizing verbose with
  | nil =>
    cases h
    exact .inl (.inl rfl)
  | cons word rest ih =>
    rw [parseFrom?.eq_def] at h
    simp only at h
    split at h
    case isTrue =>
      split at h <;> cases h
      exact .inl (.inl rfl)
    case isFalse hend =>
      split at h
      case isTrue hlooks =>
        split at h
        case h_1 lead more hlead =>
          rcases ih h with hnone | ⟨front, name, behind, hcommand, hothers⟩
          · exact .inl hnone
          · refine .inr ⟨word :: front, name, behind, hcommand, fun others => ?_⟩
            rw [List.cons_append, parseFrom?.eq_def]
            simp only [if_neg hend, if_pos hlooks, hlead, hothers]
        case h_2 =>
          cases h
          exact .inl (.inr rfl)
        case h_3 => cases h
      case isFalse hlooks =>
        refine .inr ⟨[], word, rest, h, fun others => ?_⟩
        rw [List.nil_append, parseFrom?.eq_def]
        simp only [if_neg hend, if_neg hlooks]

/-- The words that run a program with an input and a limit. -/
def runWords (program : List Char) (input : UInt8) (limit : UInt64) (json : Bool) :
    List (List Char) :=
  ["run".toList, program, "-i".toList, Text.decimal input.toNat, "-m".toList,
    Text.decimal limit.toNat] ++ if json then ["--json".toList] else []

/-- The words that trace a program with an input and a limit. -/
def traceWords (program : List Char) (input : UInt8) (limit : UInt64) : List (List Char) :=
  ["trace".toList, program, "-i".toList, Text.decimal input.toNat, "-s".toList,
    Text.decimal limit.toNat]

variable {program : List Char} {input : UInt8}

theorem scan_runOptions (program : List Char) (input : UInt8) (limit : UInt64) (json : Bool) :
    scan runSpecs none ((runWords program input limit json).drop 2)
      = some ([.option .input (some (Text.decimal input.toNat)),
          .option .maxSteps (some (Text.decimal limit.toNat))]
          ++ if json then [.option .json none] else []) := by
  show scan runSpecs none (['-', 'i'] :: _ :: ['-', 'm'] :: _ :: _) = _
  rw [scan_option (by decide) (by rfl) rfl (looksLikeOption_decimal _),
    scan_option (by decide) (by rfl) rfl (looksLikeOption_decimal _)]
  cases json <;> rfl

theorem scan_traceOptions (program : List Char) (input : UInt8) (limit : UInt64) :
    scan traceSpecs none ((traceWords program input limit).drop 2)
      = some [.option .input (some (Text.decimal input.toNat)),
          .option .steps (some (Text.decimal limit.toNat))] := by
  show scan traceSpecs none (['-', 'i'] :: _ :: ['-', 's'] :: _ :: []) = _
  rw [scan_option (by decide) (by rfl) rfl (looksLikeOption_decimal _),
    scan_option (by decide) (by rfl) rfl (looksLikeOption_decimal _)]
  rfl

theorem parse?_runWords (hprogram : looksLikeOption program = false) (hinput : input.toNat ≤ 15)
    (limit : UInt64) (json : Bool) :
    Invocation.parse? (runWords program input limit json)
      = some (.run ⟨program, some input, none, some limit, none, json⟩) := by
  have hoptions := scan_runOptions program input limit json
  show parseRun? (program :: (runWords program input limit json).drop 2) = _
  rw [parseRun?, scanCommand, scan_operand hprogram, hoptions]
  cases json <;>
    simp [given?, valuesOf, operandsOf, single?, nibble?_decimal hinput, word?_decimal]

theorem parse?_traceWords (hprogram : looksLikeOption program = false) (hinput : input.toNat ≤ 15)
    (limit : UInt64) :
    Invocation.parse? (traceWords program input limit) = some (.trace program input limit) := by
  have hoptions := scan_traceOptions program input limit
  show parseTrace? (program :: (traceWords program input limit).drop 2) = _
  rw [parseTrace?, scanCommand, scan_operand hprogram, hoptions]
  simp [given?, valuesOf, operandsOf, single?, nibble?_decimal hinput, word?_decimal]

theorem parse?_runWords_eq_none (hprogram : looksLikeOption program = true) (input : UInt8)
    (limit : UInt64) (json : Bool) :
    Invocation.parse? (runWords program input limit json) = none := by
  have hnone : scanCommand runSpecs (program :: (runWords program input limit json).drop 2) = none :=
    scanCommand_eq_none fun items hitems =>
      operandsOf_scan hprogram rfl (List.cons_ne_nil _ _) (scan_runOptions program input limit json)
        (by cases json <;> rfl) hitems
  show parseRun? (program :: (runWords program input limit json).drop 2) = _
  rw [parseRun?, hnone]
  rfl

theorem parse?_traceWords_eq_none (hprogram : looksLikeOption program = true) (input : UInt8)
    (limit : UInt64) : Invocation.parse? (traceWords program input limit) = none := by
  have hnone : scanCommand traceSpecs (program :: (traceWords program input limit).drop 2) = none :=
    scanCommand_eq_none fun items hitems =>
      operandsOf_scan hprogram rfl (List.cons_ne_nil _ _) (scan_traceOptions program input limit)
        rfl hitems
  show parseTrace? (program :: (traceWords program input limit).drop 2) = _
  rw [parseTrace?, hnone]
  rfl

end CommandLine
end TD4
