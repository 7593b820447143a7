/-
Settings read from any object.

Whatever else a text holds, the settings that are read from it hang on the members
with the three known names:

* `Json.exists_fieldAmong?`: a field that is not repeated is found, with the value that
  stands under its name, or with none;
* `SetTo` is what the members say of a setting, and `bind_fieldOr_eq_some_iff` that it
  is read so;
* `ofJson?_object_eq_some_iff`: the settings of an object are those that its members
  give.

`decided_by_fields` says it of all texts of an object: which are refused, and why, and
what is read from the others.
-/
import TD4.Proofs.Json.Grammar
import TD4.Proofs.Json.Lossless

namespace TD4
namespace Json

/-! ### Values -/

theorem word?_eq_some_iff {value : Json} {w : UInt64} : value.word? = some w ↔ value = ofWord w := by
  constructor
  · intro h
    cases value with
    | natural n =>
      rw [word?] at h
      split at h
      case isTrue hlt =>
        cases h
        rw [ofWord, UInt64.toNat_ofNat_of_lt' hlt]
      case isFalse => cases h
    | _ => cases h
  · rintro rfl
    exact word?_ofWord w

theorem byte?_eq_some_iff {value : Json} {b : UInt8} : value.byte? = some b ↔ value = ofByte b := by
  constructor
  · intro h
    cases value with
    | natural n =>
      rw [byte?] at h
      split at h
      case isTrue hlt =>
        cases h
        rw [ofByte, UInt8.toNat_ofNat_of_lt' hlt]
      case isFalse => cases h
    | _ => cases h
  · rintro rfl
    exact byte?_ofByte b

/-! ### Members -/

/-- A member with its name put together. -/
def Named (m : List Symbol × Json) (n : List Char × Json) : Prop := decode m.1 = some n.1 ∧ m.2 = n.2

/-- The number of members with a name. -/
def occurrences (named : List (List Char × Json)) (name : List Char) : Nat :=
  (named.map Prod.fst).count name

variable {named : List (List Char × Json)} {name : List Char}

theorem namedMembers?_of_named {members : List (List Symbol × Json)}
    (h : List.Forall₂ Named members named) : namedMembers? members = some named := by
  refine mapM_of_forall₂ (h.imp ?_)
  rintro ⟨symbols, value⟩ ⟨name, _⟩ ⟨hname, rfl⟩
  show (decode symbols).map _ = _
  rw [hname]
  rfl

theorem length_filter_name (named : List (List Char × Json)) (name : List Char) :
    (named.filter fun m => m.1 == name).length = occurrences named name := by
  rw [occurrences, List.count, List.countP_map, ← List.countP_eq_length_filter]
  rfl

/-- A field that is not repeated is found as it stands among the members. -/
theorem exists_fieldAmong? (h : occurrences named name ≤ 1) : ∃ field,
    fieldAmong? named name = some field ∧ ∀ value, field = some value ↔ (name, value) ∈ named := by
  have hmem : ∀ value, (name, value) ∈ named ↔
      (name, value) ∈ named.filter fun m => m.1 == name := by
    intro value
    rw [List.mem_filter]
    exact (and_iff_left (beq_self_eq_true name)).symm
  have hname : ∀ m ∈ named.filter fun m => m.1 == name, m.1 = name :=
    fun m hm => beq_iff_eq.mp (List.mem_filter.mp hm).2
  simp only [hmem]
  rw [← length_filter_name] at h
  rw [fieldAmong?]
  -- from here on only the members with the name matter
  generalize (named.filter fun m => m.1 == name) = found at h hname ⊢
  rcases found with _ | ⟨⟨first, given⟩, _ | ⟨second, others⟩⟩
  · exact ⟨none, rfl, fun value => iff_of_false (Option.some_ne_none value).symm List.not_mem_nil⟩
  · obtain rfl : first = name := hname _ List.mem_cons_self
    refine ⟨some given, rfl, fun value => ?_⟩
    rw [List.mem_singleton, Prod.mk.injEq, Option.some.injEq, eq_comm]
    exact (and_iff_right rfl).symm
  · simp at h

/-- Under a name that is not repeated stands one value. -/
theorem eq_of_occurrences_le_one (h : occurrences named name ≤ 1) {value other : Json}
    (hvalue : (name, value) ∈ named) (hother : (name, other) ∈ named) : value = other := by
  obtain ⟨field, -, hfield⟩ := exists_fieldAmong? h
  exact Option.some.inj (((hfield value).mpr hvalue).symm.trans ((hfield other).mpr hother))

/-- A field that is repeated is not read. -/
theorem fieldAmong?_of_repeated (h : 1 < occurrences named name) :
    fieldAmong? named name = none := by
  rw [← length_filter_name] at h
  rw [fieldAmong?]
  generalize (named.filter fun m => m.1 == name) = found at h ⊢
  rcases found with _ | ⟨first, _ | ⟨second, others⟩⟩
  · simp at h
  · simp at h
  · rfl

end Json

namespace RunConfig

open Json (Named occurrences)

variable {named : List (List Char × Json)} {name : List Char} {config : RunConfig}

/-! ### What the members say -/

theorem limit?_eq_some_iff {value : Json} {limit : Option UInt64} :
    limit? value = some limit ↔ value = limitToJson limit := by
  constructor
  · intro h
    rw [limit?.eq_def] at h
    split at h
    case h_1 =>
      cases h
      rfl
    case h_2 =>
      obtain ⟨w, hw, rfl⟩ := Option.map_eq_some_iff.mp h
      exact Json.word?_eq_some_iff.mp hw
  · rintro rfl
    exact limit?_limitToJson limit

/-- What the members say of a setting: the value of its field, or the default if it has
none. -/
def SetTo {α : Type} (named : List (List Char × Json)) (name : List Char) (toJson : α → Json)
    (default setting : α) : Prop :=
  (name, toJson setting) ∈ named ∨ (∀ value, (name, value) ∉ named) ∧ setting = default

/-- A setting is read if its field is not repeated, and then as the members say. -/
theorem bind_fieldOr_eq_some_iff {α : Type} {read : Json → Option α} {toJson : α → Json}
    (hread : ∀ {value x}, read value = some x ↔ value = toJson x) {default setting : α} :
    (Json.fieldAmong? named name).bind (fieldOr default read) = some setting ↔
      occurrences named name ≤ 1 ∧ SetTo named name toJson default setting := by
  by_cases honce : occurrences named name ≤ 1
  · obtain ⟨field, hfound, hfield⟩ := Json.exists_fieldAmong? honce
    rw [hfound, Option.bind_some, SetTo]
    simp only [honce, true_and, ← hfield]
    cases field with
    | none => simp [fieldOr, eq_comm]
    | some value => simp [fieldOr, hread]
  · rw [Json.fieldAmong?_of_repeated (Nat.lt_of_not_le honce)]
    exact iff_of_false (Option.some_ne_none setting).symm fun h => honce h.1

/-- The settings that the members of an object give. -/
structure Given (named : List (List Char × Json)) (config : RunConfig) : Prop where
  tick : SetTo named "tick_ms".toList Json.ofWord 1 config.tickMs
  limit : SetTo named "max_steps".toList limitToJson none config.maxSteps
  input : SetTo named "input".toList Json.ofByte 0 config.input

/-- No field of the settings is repeated. -/
def Unrepeated (named : List (List Char × Json)) : Prop :=
  ∀ name ∈ fieldNames, occurrences named name ≤ 1

/-- From an object the settings are read that its members give. -/
theorem ofJson?_object_eq_some_iff {members : List (List Json.Symbol × Json)}
    (h : List.Forall₂ Named members named) :
    ofJson? (.object members) = some config ↔ Unrepeated named ∧ Given named config := by
  have hsplit : ofJson? (.object members) = some config ↔
      (Json.fieldAmong? named "tick_ms".toList).bind (fieldOr 1 Json.word?) = some config.tickMs ∧
      (Json.fieldAmong? named "max_steps".toList).bind (fieldOr none limit?)
        = some config.maxSteps ∧
      (Json.fieldAmong? named "input".toList).bind (fieldOr 0 Json.byte?) = some config.input := by
    -- the fields are found first and read then, so each is set apart before it is read
    rw [ofJson?, Json.fields?, Json.namedMembers?_of_named h]
    simp only [fieldNames, Option.bind_eq_bind, Option.bind_some, List.mapM_cons, List.mapM_nil,
      Option.pure_def]
    generalize Json.fieldAmong? named "tick_ms".toList = tick
    generalize Json.fieldAmong? named "max_steps".toList = limit
    generalize Json.fieldAmong? named "input".toList = input
    rcases tick with _ | tick
    · simp
    rcases limit with _ | limit
    · simp
    rcases input with _ | input
    · simp
    simp only [ofFields?, Option.bind_some, Option.bind_eq_bind, Option.bind_eq_some_iff,
      Option.some.injEq]
    constructor
    · rintro ⟨tickMs, htick, maxSteps, hlimit, input, hinput, rfl⟩
      exact ⟨htick, hlimit, hinput⟩
    · rintro ⟨htick, hlimit, hinput⟩
      exact ⟨_, htick, _, hlimit, _, hinput, rfl⟩
  rw [hsplit, bind_fieldOr_eq_some_iff Json.word?_eq_some_iff,
    bind_fieldOr_eq_some_iff limit?_eq_some_iff, bind_fieldOr_eq_some_iff Json.byte?_eq_some_iff]
  constructor
  · rintro ⟨⟨htick, hgivenTick⟩, ⟨hlimit, hgivenLimit⟩, hinput, hgivenInput⟩
    refine ⟨?_, hgivenTick, hgivenLimit, hgivenInput⟩
    simp only [Unrepeated, fieldNames, List.forall_mem_cons, List.not_mem_nil, false_implies,
      implies_true, and_true]
    exact ⟨htick, hlimit, hinput⟩
  · rintro ⟨honce, hgiven⟩
    simp only [Unrepeated, fieldNames, List.forall_mem_cons] at honce
    exact ⟨⟨honce.1, hgiven.tick⟩, ⟨honce.2.1, hgiven.limit⟩, honce.2.2.1, hgiven.input⟩

/-! ### Values in the types of their fields -/

/-- A member does not stand for a value outside the type of a known field. -/
def Fits (name : List Char) (value : Json) : Prop :=
  (name = "tick_ms".toList → ∃ n < 2 ^ 64, value = .natural n) ∧
    (name = "max_steps".toList → value = .null ∨ ∃ n < 2 ^ 64, value = .natural n) ∧
    (name = "input".toList → ∃ n < 256, value = .natural n)

theorem exists_ofWord_iff {value : Json} :
    (∃ w, value = Json.ofWord w) ↔ ∃ n < 2 ^ 64, value = .natural n := by
  constructor
  · rintro ⟨w, rfl⟩
    exact ⟨w.toNat, w.toNat_lt, rfl⟩
  · rintro ⟨n, hn, rfl⟩
    exact ⟨UInt64.ofNat n, by rw [Json.ofWord, UInt64.toNat_ofNat_of_lt' hn]⟩

theorem exists_ofByte_iff {value : Json} :
    (∃ b, value = Json.ofByte b) ↔ ∃ n < 256, value = .natural n := by
  constructor
  · rintro ⟨b, rfl⟩
    exact ⟨b.toNat, b.toNat_lt, rfl⟩
  · rintro ⟨n, hn, rfl⟩
    exact ⟨UInt8.ofNat n, by rw [Json.ofByte, UInt8.toNat_ofNat_of_lt' hn]⟩

theorem exists_limitToJson_iff {value : Json} :
    (∃ limit, value = limitToJson limit) ↔ value = .null ∨ ∃ n < 2 ^ 64, value = .natural n := by
  rw [← exists_ofWord_iff]
  constructor
  · rintro ⟨_ | w, rfl⟩
    · exact Or.inl rfl
    · exact Or.inr ⟨w, rfl⟩
  · rintro (rfl | ⟨w, rfl⟩)
    · exact ⟨none, rfl⟩
    · exact ⟨some w, rfl⟩

/-- Members say something of a setting unless the value of its field is none for it. -/
theorem exists_setTo_iff {α : Type} {toJson : α → Json} {default : α}
    (honce : occurrences named name ≤ 1) : (∃ x, SetTo named name toJson default x) ↔
      ∀ value, (name, value) ∈ named → ∃ x, value = toJson x := by
  constructor
  · rintro ⟨x, hgiven | ⟨hmissing, -⟩⟩ value hvalue
    · exact ⟨x, Json.eq_of_occurrences_le_one honce hvalue hgiven⟩
    · exact absurd hvalue (hmissing value)
  · intro h
    by_cases hmissing : ∀ value, (name, value) ∉ named
    · exact ⟨default, Or.inr ⟨hmissing, rfl⟩⟩
    · obtain ⟨value, hvalue⟩ := not_forall_not.mp hmissing
      obtain ⟨x, rfl⟩ := h value hvalue
      exact ⟨x, Or.inl hvalue⟩

/-- Members give settings if their values fit. -/
theorem exists_given_iff (h : Unrepeated named) :
    (∃ config, Given named config) ↔ ∀ m ∈ named, Fits m.1 m.2 := by
  have hsplit : (∃ config, Given named config) ↔
      (∃ x, SetTo named "tick_ms".toList Json.ofWord 1 x) ∧
      (∃ x, SetTo named "max_steps".toList limitToJson none x) ∧
      ∃ x, SetTo named "input".toList Json.ofByte 0 x := by
    constructor
    · rintro ⟨config, hgiven⟩
      exact ⟨⟨_, hgiven.tick⟩, ⟨_, hgiven.limit⟩, _, hgiven.input⟩
    · rintro ⟨⟨tickMs, htick⟩, ⟨maxSteps, hlimit⟩, input, hinput⟩
      exact ⟨⟨tickMs, maxSteps, input⟩, htick, hlimit, hinput⟩
  simp only [Unrepeated, fieldNames, List.forall_mem_cons] at h
  rw [hsplit, exists_setTo_iff h.1, exists_setTo_iff h.2.1, exists_setTo_iff h.2.2.1]
  simp only [exists_ofWord_iff, exists_ofByte_iff, exists_limitToJson_iff]
  constructor
  · rintro ⟨htick, hlimit, hinput⟩ ⟨name, value⟩ hm
    exact ⟨fun hname => htick value (hname ▸ hm), fun hname => hlimit value (hname ▸ hm),
      fun hname => hinput value (hname ▸ hm)⟩
  · intro hfits
    exact ⟨fun value hm => (hfits _ hm).1 rfl, fun value hm => (hfits _ hm).2.1 rfl,
      fun value hm => (hfits _ hm).2.2 rfl⟩

/-- A wide input is given if and only if it is there. -/
theorem Given.input_eq_iff (hgiven : Given named config) (honce : Unrepeated named) {v : UInt8}
    (hwide : 16 ≤ v.toNat) : config.input = v ↔ ("input".toList, .natural v.toNat) ∈ named := by
  constructor
  · rintro rfl
    rcases hgiven.input with hmem | ⟨-, hzero⟩
    · exact hmem
    · rw [hzero] at hwide
      exact absurd hwide (by decide)
  · intro hmem
    rcases hgiven.input with hgiven | ⟨hmissing, -⟩
    · have hsame := Json.eq_of_occurrences_le_one (honce _ (by decide)) hgiven hmem
      exact UInt8.toNat_inj.mp (Json.natural.inj hsame)
    · exact absurd hmem (hmissing _)

/-! ### Texts -/

section Texts

variable {members : List (List Json.Symbol × Json)} {text : List Char}
  (htext : Json.ElementText (.object members) text) (hnames : List.Forall₂ Named members named)

include htext hnames

/-- The settings that the members give are read, and of them the input is looked at. -/
theorem ofText_of_given (honce : Unrepeated named) (hgiven : Given named config) : ofText text
    = if config.input.toNat ≤ 15 then .ok config else .error (.wideInput config.input) :=
  ofText_of_ofJson? (Json.parse?_of_elementText htext)
    ((ofJson?_object_eq_some_iff hnames).mpr ⟨honce, hgiven⟩)

theorem ofText_of_no_settings (h : ∀ config, ¬ (Unrepeated named ∧ Given named config)) :
    ofText text = .error .malformed := by
  have hread : ofJson? (.object members) = none :=
    Option.eq_none_iff_forall_ne_some.mpr fun config hconfig =>
      h config ((ofJson?_object_eq_some_iff hnames).mp hconfig)
  rw [ofText, Json.parse?_of_elementText htext, Option.bind_some, hread]

theorem ofText_eq_malformed_iff (honce : Unrepeated named) :
    ofText text = .error .malformed ↔ ∃ m ∈ named, ¬ Fits m.1 m.2 := by
  constructor
  · intro h
    by_contra hall
    obtain ⟨config, hconfig⟩ := (exists_given_iff honce).mpr (by simpa using hall)
    rw [ofText_of_given htext hnames honce hconfig] at h
    split at h <;> cases h
  · rintro ⟨m, hm, hnot⟩
    refine ofText_of_no_settings htext hnames fun config h => ?_
    exact hnot ((exists_given_iff honce).mp ⟨config, h.2⟩ m hm)

theorem ofText_eq_wideInput_iff (honce : Unrepeated named) (v : UInt8) :
    ofText text = .error (.wideInput v) ↔ (∀ m ∈ named, Fits m.1 m.2) ∧
      ("input".toList, .natural v.toNat) ∈ named ∧ 16 ≤ v.toNat := by
  constructor
  · intro h
    have hfits : ∀ m ∈ named, Fits m.1 m.2 := by
      by_contra hnot
      have hmalformed := (ofText_eq_malformed_iff htext hnames honce).mpr (by simpa using hnot)
      cases h.symm.trans hmalformed
    obtain ⟨config, hconfig⟩ := (exists_given_iff honce).mpr hfits
    rw [ofText_of_given htext hnames honce hconfig] at h
    split at h
    case isTrue => cases h
    case isFalse hwide =>
      cases h
      have hwide := Nat.lt_of_not_le hwide
      exact ⟨hfits, (hconfig.input_eq_iff honce hwide).mp rfl, hwide⟩
  · rintro ⟨hfits, hmem, hwide⟩
    obtain ⟨config, hconfig⟩ := (exists_given_iff honce).mpr hfits
    obtain rfl := (hconfig.input_eq_iff honce hwide).mpr hmem
    rw [ofText_of_given htext hnames honce hconfig, if_neg (Nat.not_le.mpr hwide)]

end Texts

/-- What is read from a text of members. -/
structure DecidedByFields (text : List Char) (named : List (List Char × Json)) : Prop where
  /-- A known field that occurs twice is malformed, whatever its values. -/
  repeated : ¬ Unrepeated named → ofText text = .error .malformed
  /-- So is a value outside the type of its field, and nothing else. -/
  malformed : Unrepeated named →
    (ofText text = .error .malformed ↔ ∃ m ∈ named, ¬ Fits m.1 m.2)
  /-- An input that is a byte but no nibble is refused for that. -/
  wide : Unrepeated named → ∀ v, (ofText text = .error (.wideInput v) ↔
    (∀ m ∈ named, Fits m.1 m.2) ∧ ("input".toList, .natural v.toNat) ∈ named ∧ 16 ≤ v.toNat)
  /-- In all other texts are the settings that the members give. -/
  settings : Unrepeated named → (∀ m ∈ named, Fits m.1 m.2) →
    (∀ n, ("input".toList, .natural n) ∈ named → n ≤ 15) →
      ∃ config, Given named config ∧ ofText text = .ok config

/-- **The known fields decide.**  From any text of an object whose names can be put
together, in any order, with any blanks and any other fields, the settings are read
that the three known fields give.  It is refused only if one of them is repeated or
has a value outside its type, or else if the input does not fit in a nibble. -/
theorem decided_by_fields {members : List (List Json.Symbol × Json)} {text : List Char}
    (htext : Json.ElementText (.object members) text) (hnames : List.Forall₂ Named members named) :
    DecidedByFields text named := by
  refine ⟨fun hrepeated => ?_, ofText_eq_malformed_iff htext hnames,
    ofText_eq_wideInput_iff htext hnames, fun honce hfits hnibble => ?_⟩
  · exact ofText_of_no_settings htext hnames fun config h => hrepeated h.1
  · obtain ⟨config, hconfig⟩ := (exists_given_iff honce).mpr hfits
    have hfit : config.input.toNat ≤ 15 := by
      rcases hconfig.input with hmem | ⟨-, hzero⟩
      · exact hnibble _ hmem
      · rw [hzero]
        decide
    exact ⟨config, hconfig, by rw [ofText_of_given htext hnames honce hconfig, if_pos hfit]⟩

/-- A field that is not known with half a surrogate pair in it, and an input that is too
wide under a name with an escape. -/
theorem decided_by_fields_wide :
    Json.ElementText
      (.object [(Json.encode ['x'], .array [.string [.surrogate 0], .real]),
        (Json.encode "input".toList, .natural 16)])
      "\x7b\"x\":[\"\\ud800\",-0.5] ,\"\\u0069nput\": 16\x7d".toList ∧
    List.Forall₂ Named
      [(Json.encode ['x'], .array [.string [.surrogate 0], .real]),
        (Json.encode "input".toList, .natural 16)]
      [(['x'], .array [.string [.surrogate 0], .real]), ("input".toList, .natural 16)] ∧
    ofText "\x7b\"x\":[\"\\ud800\",-0.5] ,\"\\u0069nput\": 16\x7d".toList
      = .error (.wideInput 16) := by
  have hdigits : ∀ {base n digits}, base ≤ 16 → Text.natural? base digits = some n →
      Text.Positional base digits n := fun hbase => (Text.natural?_eq_some_iff hbase).mp
  have hsurrogate : Json.SymbolText (Json.symbolOfUnit 0xD800) ('\\' :: 'u' :: "d800".toList) :=
    .long (by decide) (hdigits (by decide) (by decide))
  have hletter : Json.SymbolText (Json.symbolOfUnit 0x69) ('\\' :: 'u' :: "0069".toList) :=
    .long (by decide) (hdigits (by decide) (by decide))
  have hreal : Json.RealText (['-'] ++ (['0'] ++ (['.', '5'] ++ []))) :=
    .intro (Or.inr rfl) .zero (.present (by decide)) .absent (List.cons_ne_nil _ _)
  have hbare : Json.Blanks [] := by decide
  have hblank : Json.Blanks [' '] := by decide
  have hitems : Json.ItemsText [.string [.surrogate 0], .real] "\"\\ud800\",-0.5".toList :=
    .more (.intro hbare (.string (.cons hsurrogate .nil)) hbare)
      (.last (.intro hbare (.real hreal) hbare))
  have hunknown : Json.NameText (Json.encode ['x']) "\"x\"".toList :=
    .intro hbare (Json.stringText_text _) hbare
  have hinput : Json.NameText (Json.encode "input".toList) "\"\\u0069nput\"".toList :=
    .intro hbare (.cons hletter (Json.stringText_text (Json.encode "nput".toList))) hbare
  have hwhole : Json.Whole 16 "16".toList := .positive (hdigits (by decide) (by decide)) (by decide)
  have htext : Json.ElementText
      (.object [(Json.encode ['x'], .array [.string [.surrogate 0], .real]),
        (Json.encode "input".toList, .natural 16)])
      "\x7b\"x\":[\"\\ud800\",-0.5] ,\"\\u0069nput\": 16\x7d".toList :=
    .intro hbare (.object (.more hunknown (.intro hbare (.array hitems) hblank)
      (.last hinput (.intro hblank (.natural hwhole) hbare)))) hbare
  have hnames : List.Forall₂ Named
      [(Json.encode ['x'], .array [.string [.surrogate 0], .real]),
        (Json.encode "input".toList, .natural 16)]
      [(['x'], .array [.string [.surrogate 0], .real]), ("input".toList, .natural 16)] :=
    .cons ⟨Json.decode_encode _, rfl⟩ (.cons ⟨Json.decode_encode _, rfl⟩ .nil)
  have hfits : ∀ m ∈ [(['x'], .array [.string [.surrogate 0], .real]),
      ("input".toList, Json.natural 16)], Fits m.1 m.2 := by
    intro m hm
    rcases List.mem_pair.mp hm with rfl | rfl
    · exact ⟨fun h => absurd h (by decide), fun h => absurd h (by decide),
        fun h => absurd h (by decide)⟩
    · exact ⟨fun h => absurd h (by decide), fun h => absurd h (by decide),
        fun _ => ⟨16, by decide, rfl⟩⟩
  have hwide := (decided_by_fields htext hnames).wide (by unfold Unrepeated; decide) 16
  exact ⟨htext, hnames, hwide.mpr ⟨hfits, List.mem_cons_of_mem _ List.mem_cons_self, by decide⟩⟩

end RunConfig
end TD4
