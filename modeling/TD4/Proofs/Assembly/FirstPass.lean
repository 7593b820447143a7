/-
The first pass.

The state of the first pass is told by the lines read so far.  `Draft.Holds d
lines` says that the draft `d` is what these lines leave: as many bytes as
there are lines with a statement, the address of each label the number of such
lines in front of its definition, and a fixup for each jump to a label.

* `Draft.step_of_addLine`: what one line does to a draft;
* `Draft.Holds.step`: a line keeps the invariant;
* `Draft.holds_of_ofSource`: the draft of a whole text holds all its lines.

The invariant names the fixups by their members and their order; as the order
is strict, this leaves only one list.
-/
import TD4.Assembly.Draft
import TD4.Proofs.Assembly.Statement

namespace TD4
namespace Assembly

/-! ### Addresses -/

/-- The lines of a program text, each cut into its parts. -/
def SourceLine.ofSource (source : List Char) : List SourceLine :=
  (source.splitOn '\n').map SourceLine.ofText

/-- The number of lines in front of a line that put a byte into the program. -/
def addressOf (lines : List SourceLine) (i : Nat) : Nat :=
  (lines.take i).countP SourceLine.emits

/-- A line defines a label. -/
def DefinedAt (lines : List SourceLine) (name : List Char) (i : Nat) : Prop :=
  ∃ line, lines[i]? = some line ∧ line.label = some name

variable {lines : List SourceLine} {line : SourceLine}

theorem getElem?_append_iff {α : Type} {xs ys : List α} {y : α} {i : Nat} :
    (xs ++ ys)[i]? = some y ↔ xs[i]? = some y ∨ ∃ k, i = xs.length + k ∧ ys[k]? = some y := by
  by_cases hi : i < xs.length
  · rw [List.getElem?_append_left hi]
    constructor
    · exact Or.inl
    · rintro (h | ⟨k, rfl, -⟩)
      · exact h
      · exact absurd hi (Nat.not_lt.mpr (Nat.le_add_right _ _))
  · obtain ⟨k, rfl⟩ := Nat.exists_eq_add_of_le (Nat.not_lt.mp hi)
    rw [List.getElem?_append_right (Nat.le_add_right _ _), Nat.add_sub_cancel_left,
      List.getElem?_eq_none (Nat.le_add_right _ _)]
    simp

theorem getElem?_concat_iff {α : Type} {xs : List α} {x y : α} {i : Nat} :
    (xs ++ [x])[i]? = some y ↔ xs[i]? = some y ∨ i = xs.length ∧ x = y := by
  rw [getElem?_append_iff]
  simp [List.getElem?_singleton, ← and_assoc]

theorem addressOf_append {i : Nat} (h : i ≤ lines.length) (more : List SourceLine) :
    addressOf (lines ++ more) i = addressOf lines i := by
  rw [addressOf, addressOf, List.take_append_of_le_length h]

theorem addressOf_length (more : List SourceLine) :
    addressOf (lines ++ more) lines.length = lines.countP SourceLine.emits := by
  rw [addressOf, List.take_left]

/-- Lines in front move the addresses of the lines behind. -/
theorem addressOf_append_length (lines more : List SourceLine) (k : Nat) :
    addressOf (lines ++ more) (lines.length + k)
      = lines.countP SourceLine.emits + addressOf more k := by
  rw [addressOf, List.take_length_add_append, List.countP_append]
  rfl

theorem lt_length_of_getElem? {i : Nat} (h : lines[i]? = some line) : i < lines.length :=
  (List.getElem?_eq_some_iff.mp h).choose

/-- An emitting line moves the addresses of all lines after it. -/
theorem addressOf_lt_addressOf {i j : Nat} (h : lines[i]? = some line) (hemits : line.emits = true)
    (hij : i < j) : addressOf lines i < addressOf lines j := by
  obtain ⟨hlt, hline⟩ := List.getElem?_eq_some_iff.mp h
  -- the line itself is counted one place later
  have hnext : addressOf lines (i + 1) = addressOf lines i + 1 := by
    rw [addressOf, List.take_succ_eq_append_getElem hlt, List.countP_append, hline]
    simp [addressOf, hemits]
  have hmono : addressOf lines (i + 1) ≤ addressOf lines j :=
    (List.take_sublist_take_left (Nat.succ_le_of_lt hij)).countP_le
  omega

theorem addressOf_lt {i : Nat} (h : lines[i]? = some line) (hemits : line.emits = true) :
    addressOf lines i < lines.countP SourceLine.emits := by
  have hlt := addressOf_lt_addressOf h hemits (lt_length_of_getElem? h)
  rwa [addressOf, addressOf, List.take_length] at hlt

theorem addressOf_inj {i j : Nat} {other : SourceLine} (hi : lines[i]? = some line)
    (hj : lines[j]? = some other) (hline : line.emits = true) (hother : other.emits = true)
    (h : addressOf lines i = addressOf lines j) : i = j := by
  rcases Nat.lt_trichotomy i j with hlt | heq | hgt
  · exact absurd h (Nat.ne_of_lt (addressOf_lt_addressOf hi hline hlt))
  · exact heq
  · exact absurd h.symm (Nat.ne_of_lt (addressOf_lt_addressOf hj hother hgt))

/-- The place of a line among those with a statement is its address. -/
theorem exists_of_getElem?_filter {k : Nat}
    (h : (lines.filter SourceLine.emits)[k]? = some line) :
    ∃ i, lines[i]? = some line ∧ line.emits = true ∧ addressOf lines i = k := by
  induction lines generalizing k with
  | nil => cases h
  | cons first rest ih =>
    have hnext : ∀ i, addressOf (first :: rest) (i + 1)
        = addressOf rest i + if first.emits then 1 else 0 := fun i => List.countP_cons
    by_cases hfirst : first.emits = true
    · rw [List.filter_cons_of_pos hfirst] at h
      rcases k with _ | k
      · cases h
        exact ⟨0, rfl, hfirst, rfl⟩
      · obtain ⟨i, hline, hemits, haddress⟩ := ih h
        exact ⟨i + 1, hline, hemits, by rw [hnext, haddress, if_pos hfirst]⟩
    · rw [List.filter_cons_of_neg hfirst] at h
      obtain ⟨i, hline, hemits, haddress⟩ := ih h
      exact ⟨i + 1, hline, hemits, by rw [hnext, haddress, if_neg hfirst, Nat.add_zero]⟩

theorem exists_addressOf_eq {k : Nat} (h : k < lines.countP SourceLine.emits) :
    ∃ i line, lines[i]? = some line ∧ line.emits = true ∧ addressOf lines i = k := by
  rw [List.countP_eq_length_filter] at h
  obtain ⟨i, hline⟩ := exists_of_getElem?_filter (List.getElem?_eq_getElem h)
  exact ⟨i, _, hline⟩

theorem definedAt_append_iff {more : List SourceLine} {name : List Char} {i : Nat} :
    DefinedAt (lines ++ more) name i ↔
      DefinedAt lines name i ∨ ∃ k, i = lines.length + k ∧ DefinedAt more name k := by
  constructor
  · rintro ⟨line, hline, hlabel⟩
    rcases getElem?_append_iff.mp hline with hold | ⟨k, rfl, hnew⟩
    · exact Or.inl ⟨line, hold, hlabel⟩
    · exact Or.inr ⟨k, rfl, line, hnew, hlabel⟩
  · rintro (⟨line, hline, hlabel⟩ | ⟨k, rfl, line, hline, hlabel⟩)
    · exact ⟨line, getElem?_append_iff.mpr (Or.inl hline), hlabel⟩
    · exact ⟨line, getElem?_append_iff.mpr (Or.inr ⟨k, rfl, hline⟩), hlabel⟩

theorem definedAt_concat_iff {name : List Char} {i : Nat} :
    DefinedAt (lines ++ [line]) name i ↔
      DefinedAt lines name i ∨ i = lines.length ∧ line.label = some name := by
  have hsingle : ∀ k, DefinedAt [line] name k ↔ k = 0 ∧ line.label = some name := by
    intro k
    rcases k with _ | k <;> simp [DefinedAt]
  rw [definedAt_append_iff]
  simp [hsingle]

theorem DefinedAt.lt_length {name : List Char} {i : Nat} (h : DefinedAt lines name i) :
    i < lines.length := by
  obtain ⟨_, hline, -⟩ := h
  exact lt_length_of_getElem? hline

theorem emits_of_labelJump {name : List Char} {byte : UInt8}
    (h : LabelJump line.body name byte) : line.emits = true := by
  rw [SourceLine.emits, Bool.not_eq_true', List.isEmpty_eq_false_iff]
  intro hnil
  rw [hnil] at h
  obtain ⟨hparts, -⟩ | ⟨hparts, -⟩ := h <;> cases hparts

/-! ### One line -/

namespace Draft

/-- What a line does to a draft: its label takes the next address, and its
statement, if there is one, puts a byte and perhaps a fixup at the end. -/
structure Step (d : Draft) (number : Nat) (line : SourceLine) (next : Draft) : Prop where
  fresh : ∀ name, line.label = some name → d.address? name = none
  labels : next.labels = d.labels ++ line.label.toList.map fun name => (name, d.code.length)
  body : line.emits = false ∧ next.code = d.code ∧ next.fixups = d.fixups ∨
    line.emits = true ∧ ∃ s, Statement.read line.body = .ok s ∧ d.code.length < Rom.size ∧
      next.code = d.code ++ [s.byte] ∧ next.fixups = d.fixups ++ d.fixupsOf number s

theorem addLabel_ok {d labelled : Draft} (h : d.addLabel line = .ok labelled) :
    (∀ name, line.label = some name → d.address? name = none) ∧
      labelled = { d with
        labels := d.labels ++ line.label.toList.map fun name => (name, d.code.length) } := by
  rw [addLabel] at h
  split at h
  case h_1 name hlabel =>
    rw [define] at h
    split at h
    case isTrue => cases h
    case isFalse =>
      split at h
      case isTrue => cases h
      case isFalse hfresh =>
        cases h
        refine ⟨fun other hother => ?_, by simp [hlabel]⟩
        rw [hlabel] at hother
        cases hother
        simpa using hfresh
  case h_2 hlabel =>
    cases h
    refine ⟨fun other hother => ?_, by simp [hlabel]⟩
    rw [hlabel] at hother
    cases hother

theorem addBody_ok {d next : Draft} {number : Nat} (h : d.addBody number line = .ok next) :
    line.emits = false ∧ next = d ∨
      line.emits = true ∧ ∃ s, Statement.read line.body = .ok s ∧ d.code.length < Rom.size ∧
        next = { d with
          code := d.code ++ [s.byte], fixups := d.fixups ++ d.fixupsOf number s } := by
  rw [addBody] at h
  split at h
  case isTrue hemits =>
    split at h
    case h_1 s hread =>
      rw [emit] at h
      split at h
      case isTrue hroom =>
        cases h
        exact Or.inr ⟨hemits, s, hread, hroom, rfl⟩
      case isFalse => cases h
    case h_2 => cases h
  case isFalse hemits =>
    cases h
    exact Or.inl ⟨Bool.eq_false_iff.mpr hemits, rfl⟩

/-- A line that is taken in does nothing but one step. -/
theorem step_of_addLine {d next : Draft} {number : Nat} {text : List Char}
    (h : d.addLine number text = .ok next) : Step d number (SourceLine.ofText text) next := by
  simp only [addLine] at h
  split at h
  case h_1 => cases h
  case h_2 labelled hlabel =>
    split at h
    case h_1 => cases h
    case h_2 taken hbody =>
      cases h
      obtain ⟨hfresh, rfl⟩ := addLabel_ok hlabel
      rcases addBody_ok hbody with ⟨hemits, rfl⟩ | ⟨hemits, s, hread, hroom, rfl⟩
      · exact ⟨hfresh, rfl, Or.inl ⟨hemits, rfl, rfl⟩⟩
      · exact ⟨hfresh, rfl, Or.inr ⟨hemits, s, hread, hroom, rfl, rfl⟩⟩

/-! ### All lines so far -/

/-- A draft is what the lines read so far leave. -/
structure Holds (d : Draft) (lines : List SourceLine) : Prop where
  length_code : d.code.length = lines.countP SourceLine.emits
  length_le : d.code.length ≤ Rom.size
  address?_iff : ∀ name address, d.address? name = some address ↔
    ∃ i, DefinedAt lines name i ∧ addressOf lines i = address
  defined_once : ∀ name i j, DefinedAt lines name i → DefinedAt lines name j → i = j
  byte : ∀ i line, lines[i]? = some line → line.emits = true →
    ∃ s, Statement.read line.body = .ok s ∧ d.code[addressOf lines i]? = some s.byte
  mem_fixups_iff : ∀ fixup, fixup ∈ d.fixups ↔
    ∃ i line byte, lines[i]? = some line ∧ LabelJump line.body fixup.label byte ∧
      fixup.index = addressOf lines i ∧ fixup.line = i + 1
  fixups_sorted : d.fixups.Pairwise fun f g => f.index < g.index ∧ f.line < g.line

theorem holds_empty : Holds empty [] where
  length_code := rfl
  length_le := Nat.zero_le _
  address?_iff name address := by
    constructor
    · intro h
      cases h
    · rintro ⟨i, hi, -⟩
      exact absurd hi.lt_length (Nat.not_lt_zero i)
  defined_once name i j hi _ := absurd hi.lt_length (Nat.not_lt_zero i)
  byte i line hline := absurd (lt_length_of_getElem? hline) (Nat.not_lt_zero i)
  mem_fixups_iff fixup := by
    constructor
    · intro h
      exact absurd h List.not_mem_nil
    · rintro ⟨i, line, byte, hline, -⟩
      exact absurd (lt_length_of_getElem? hline) (Nat.not_lt_zero i)
  fixups_sorted := List.Pairwise.nil

theorem Holds.fixup_lt {d : Draft} (h : Holds d lines) {fixup : Fixup} (hf : fixup ∈ d.fixups) :
    fixup.index < d.code.length ∧ fixup.line ≤ lines.length := by
  obtain ⟨i, line, byte, hline, hjump, hindex, hnumber⟩ := (h.mem_fixups_iff fixup).mp hf
  have hlt := lt_length_of_getElem? hline
  rw [hindex, hnumber, h.length_code]
  exact ⟨addressOf_lt hline (emits_of_labelJump hjump), hlt⟩

/-! ### One more line -/

namespace Step

variable {d next : Draft}

theorem address?_eq {number : Nat} (h : Step d number line next) (name : List Char) :
    next.address? name
      = (d.address? name).or (if line.label = some name then some d.code.length else none) := by
  rw [address?, address?, h.labels, List.lookup_append]
  rcases line.label with _ | other
  · simp
  · by_cases heq : other = name
    · simp [heq]
    · have hne : (name == other) = false := beq_eq_false_iff_ne.mpr (Ne.symm heq)
      simp [heq, List.lookup_cons, hne]

theorem code_prefix {number : Nat} (h : Step d number line next) : d.code <+: next.code := by
  rcases h.body with ⟨-, hcode, -⟩ | ⟨-, s, -, -, hcode, -⟩
  · exact ⟨[], by rw [List.append_nil, hcode]⟩
  · rw [hcode]
    exact List.prefix_append _ _

theorem length_code {number : Nat} (h : Step d number line next) (hd : Holds d lines) :
    next.code.length = (lines ++ [line]).countP SourceLine.emits := by
  rw [List.countP_append, ← hd.length_code]
  rcases h.body with ⟨hemits, hcode, -⟩ | ⟨hemits, s, -, -, hcode, -⟩
  · simp [hcode, hemits]
  · simp [hcode, hemits]

theorem length_le {number : Nat} (h : Step d number line next) (hd : Holds d lines) :
    next.code.length ≤ Rom.size := by
  rcases h.body with ⟨-, hcode, -⟩ | ⟨-, s, -, hroom, hcode, -⟩
  · rw [hcode]
    exact hd.length_le
  · rw [hcode, List.length_append]
    exact hroom

theorem address?_iff {number : Nat} (h : Step d number line next) (hd : Holds d lines)
    (name : List Char) (address : Nat) : next.address? name = some address ↔
      ∃ i, DefinedAt (lines ++ [line]) name i ∧ addressOf (lines ++ [line]) i = address := by
  rw [h.address?_eq]
  constructor
  · intro hsome
    rcases Option.or_eq_some_iff.mp hsome with hold | ⟨-, hnew⟩
    · obtain ⟨i, hi, haddress⟩ := (hd.address?_iff name address).mp hold
      refine ⟨i, definedAt_concat_iff.mpr (Or.inl hi), ?_⟩
      rw [addressOf_append (Nat.le_of_lt hi.lt_length), haddress]
    · split at hnew
      case isTrue hlabel =>
        refine ⟨lines.length, definedAt_concat_iff.mpr (Or.inr ⟨rfl, hlabel⟩), ?_⟩
        rw [addressOf_length, ← hd.length_code]
        exact Option.some_inj.mp hnew
      case isFalse => cases hnew
  · rintro ⟨i, hi, rfl⟩
    rcases definedAt_concat_iff.mp hi with hold | ⟨rfl, hlabel⟩
    · -- an old definition comes first in the table
      rw [addressOf_append (Nat.le_of_lt hold.lt_length)]
      rw [(hd.address?_iff name _).mpr ⟨i, hold, rfl⟩, Option.some_or]
    · rw [h.fresh name hlabel, Option.none_or, if_pos hlabel, addressOf_length, hd.length_code]

theorem not_definedAt {number : Nat} (h : Step d number line next) (hd : Holds d lines)
    {name : List Char} (hlabel : line.label = some name) (i : Nat) : ¬ DefinedAt lines name i := by
  intro hi
  have hsome := (hd.address?_iff name _).mpr ⟨i, hi, rfl⟩
  rw [h.fresh name hlabel] at hsome
  cases hsome

theorem defined_once {number : Nat} (h : Step d number line next) (hd : Holds d lines)
    (name : List Char) (i j : Nat) (hi : DefinedAt (lines ++ [line]) name i)
    (hj : DefinedAt (lines ++ [line]) name j) : i = j := by
  -- a label of the new line was not defined before
  rcases definedAt_concat_iff.mp hi with hi | ⟨rfl, hlabel⟩
  · rcases definedAt_concat_iff.mp hj with hj | ⟨-, hlabel⟩
    · exact hd.defined_once name i j hi hj
    · exact absurd hi (h.not_definedAt hd hlabel i)
  · rcases definedAt_concat_iff.mp hj with hj | ⟨rfl, -⟩
    · exact absurd hj (h.not_definedAt hd hlabel j)
    · rfl

theorem byte {number : Nat} (h : Step d number line next) (hd : Holds d lines) (i : Nat)
    (other : SourceLine) (hline : (lines ++ [line])[i]? = some other)
    (hemits : other.emits = true) :
    ∃ s, Statement.read other.body = .ok s ∧
      next.code[addressOf (lines ++ [line]) i]? = some s.byte := by
  rcases getElem?_concat_iff.mp hline with hold | ⟨rfl, rfl⟩
  · obtain ⟨s, hread, hbyte⟩ := hd.byte i other hold hemits
    refine ⟨s, hread, ?_⟩
    rw [addressOf_append (Nat.le_of_lt (lt_length_of_getElem? hold))]
    obtain ⟨more, hmore⟩ := h.code_prefix
    rw [← hmore, List.getElem?_append_left (List.getElem?_eq_some_iff.mp hbyte).choose, hbyte]
  · rcases h.body with ⟨hno, -⟩ | ⟨-, s, hread, -, hcode, -⟩
    · rw [hno] at hemits
      cases hemits
    · refine ⟨s, hread, ?_⟩
      rw [addressOf_length, ← hd.length_code, hcode, List.getElem?_concat_length]

theorem mem_fixupsOf_iff {number : Nat} {s : Statement} {fixup : Fixup} :
    fixup ∈ d.fixupsOf number s ↔
      s.target = some fixup.label ∧ fixup.index = d.code.length ∧ fixup.line = number := by
  rcases fixup with ⟨index, label, source⟩
  rw [fixupsOf]
  split
  case h_1 name hname =>
    rw [hname, List.mem_singleton, Fixup.mk.injEq, Option.some_inj]
    constructor
    · rintro ⟨hindex, hlabel, hline⟩
      exact ⟨hlabel.symm, hindex, hline⟩
    · rintro ⟨hlabel, hindex, hline⟩
      exact ⟨hindex, hlabel.symm, hline⟩
  case h_2 hnone => simp [hnone]

theorem mem_fixups_iff (h : Step d (lines.length + 1) line next) (hd : Holds d lines)
    (fixup : Fixup) : fixup ∈ next.fixups ↔
      ∃ i other byte, (lines ++ [line])[i]? = some other ∧
        LabelJump other.body fixup.label byte ∧
        fixup.index = addressOf (lines ++ [line]) i ∧ fixup.line = i + 1 := by
  -- what the line adds; the old fixups are told by the invariant
  have hnew : fixup ∈ next.fixups ↔ fixup ∈ d.fixups ∨
      ∃ byte, LabelJump line.body fixup.label byte ∧ fixup.index = d.code.length ∧
        fixup.line = lines.length + 1 := by
    rcases h.body with ⟨hemits, -, hfixups⟩ | ⟨-, s, hread, -, -, hfixups⟩
    · rw [hfixups]
      refine ⟨Or.inl, ?_⟩
      rintro (hold | ⟨byte, hjump, -⟩)
      · exact hold
      · rw [emits_of_labelJump hjump] at hemits
        cases hemits
    · rw [hfixups, List.mem_append, mem_fixupsOf_iff]
      refine or_congr_right ⟨?_, ?_⟩
      · rintro ⟨htarget, hplace⟩
        refine ⟨s.byte, Statement.read_label_iff.mp ?_, hplace⟩
        rw [hread, ← htarget]
      · rintro ⟨byte, hjump, hplace⟩
        have hsame := (Statement.read_label_iff.mpr hjump).symm.trans hread
        cases hsame
        exact ⟨rfl, hplace⟩
  rw [hnew, hd.mem_fixups_iff]
  constructor
  · rintro (⟨i, other, byte, hline, hjump, hindex, hnumber⟩ | ⟨byte, hjump, hindex, hnumber⟩)
    · refine ⟨i, other, byte, getElem?_concat_iff.mpr (Or.inl hline), hjump, ?_, hnumber⟩
      rw [hindex, addressOf_append (Nat.le_of_lt (lt_length_of_getElem? hline))]
    · refine ⟨lines.length, line, byte, getElem?_concat_iff.mpr (Or.inr ⟨rfl, rfl⟩), hjump, ?_,
        hnumber⟩
      rw [hindex, addressOf_length, hd.length_code]
  · rintro ⟨i, other, byte, hline, hjump, hindex, hnumber⟩
    rcases getElem?_concat_iff.mp hline with hold | ⟨rfl, rfl⟩
    · refine Or.inl ⟨i, other, byte, hold, hjump, ?_, hnumber⟩
      rw [hindex, addressOf_append (Nat.le_of_lt (lt_length_of_getElem? hold))]
    · refine Or.inr ⟨byte, hjump, ?_, hnumber⟩
      rw [hindex, addressOf_length, hd.length_code]

theorem fixups_sorted (h : Step d (lines.length + 1) line next) (hd : Holds d lines) :
    next.fixups.Pairwise fun f g => f.index < g.index ∧ f.line < g.line := by
  rcases h.body with ⟨-, -, hfixups⟩ | ⟨-, s, -, -, -, hfixups⟩
  · rw [hfixups]
    exact hd.fixups_sorted
  · rw [hfixups]
    refine List.pairwise_append.mpr ⟨hd.fixups_sorted, ?_, ?_⟩
    · rw [fixupsOf]
      split
      · exact List.pairwise_singleton _ _
      · exact List.Pairwise.nil
    · -- the new fixup stands at the end of the code, the old ones before it
      intro f hf g hg
      obtain ⟨hindex, hnumber⟩ := hd.fixup_lt hf
      obtain ⟨-, hplace, hline⟩ := mem_fixupsOf_iff.mp hg
      rw [hplace, hline]
      exact ⟨hindex, Nat.lt_succ_of_le hnumber⟩

end Step

/-- The first pass keeps the invariant from line to line. -/
theorem Holds.step {d next : Draft} (hd : Holds d lines)
    (h : Step d (lines.length + 1) line next) : Holds next (lines ++ [line]) where
  length_code := h.length_code hd
  length_le := h.length_le hd
  address?_iff := h.address?_iff hd
  defined_once := h.defined_once hd
  byte := h.byte hd
  mem_fixups_iff := h.mem_fixups_iff hd
  fixups_sorted := h.fixups_sorted hd

/-- The first pass over more lines.  The induction lets lines have been read. -/
theorem Holds.addLines {texts : List (List Char)} :
    ∀ {d next : Draft} {lines : List SourceLine}, Holds d lines →
      d.addLines (lines.length + 1) texts = .ok next →
        Holds next (lines ++ texts.map SourceLine.ofText) := by
  induction texts with
  | nil =>
    intro d next lines hd h
    cases h
    simpa using hd
  | cons text rest ih =>
    intro d next lines hd h
    rw [Draft.addLines] at h
    split at h
    case h_1 => cases h
    case h_2 taken htaken =>
      have hstep : Holds taken (lines ++ [SourceLine.ofText text]) :=
        hd.step (step_of_addLine htaken)
      have hrest := ih hstep (by simpa using h)
      simpa using hrest

/-- The draft of a whole text holds all its lines. -/
theorem holds_of_ofSource {source : List Char} {d : Draft} (h : ofSource source = .ok d) :
    Holds d (SourceLine.ofSource source) :=
  holds_empty.addLines h

end Draft

end Assembly
end TD4
