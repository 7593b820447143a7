/-
Values read back from text.

* `takeAll_tokens`: the tokens of a value, wherever they stand, are put together
  to that value;
* `spells_prettyFrom`: the lines of a value spell its tokens;
* `parse?_pretty`: the lines of a value are read as that value.
-/
import TD4.Json.Layout
import TD4.Proofs.Json.Spelling

namespace TD4
namespace Json

/-! ### Tokens -/

/-- The tokens of a value do not begin with the end of an array. -/
theorem exists_cons_tokens (value : Json) :
    ∃ token rest, value.tokens = token :: rest ∧ token ≠ .closeArray := by
  cases value with
  | array items =>
    cases items with
    | nil => exact ⟨_, _, rfl, nofun⟩
    | cons => exact ⟨_, _, rfl, nofun⟩
  | object members =>
    cases members with
    | nil => exact ⟨_, _, rfl, nofun⟩
    | cons => exact ⟨_, _, rfl, nofun⟩
  | _ => exact ⟨_, _, rfl, nofun⟩

variable {stack next : List Frame} {expectation following : Expectation} {token : Token}

theorem takeAll_of_take (h : take stack expectation token = some (next, following))
    (rest : List Token) :
    takeAll stack expectation (token :: rest) = takeAll next following rest := by
  cases stack <;> cases expectation <;> simp only [takeAll, h]

theorem takeAll_of_scalar {value : Json} (h : token.scalar? = some value) (stack : List Frame)
    (rest : List Token) : takeAll stack .value (token :: rest) = takeAll stack (.after value) rest := by
  refine takeAll_of_take ?_ rest
  cases token with
  | openArray => cases h
  | openObject => cases h
  | _ => exact congrArg (Option.map fun value => (stack, Expectation.after value)) h

/-- Where the end of an array does not come, an item does. -/
theorem takeAll_itemOrEnd (value : Json) (stack : List Frame) (rest : List Token) :
    takeAll stack .itemOrEnd (value.tokens ++ rest) = takeAll stack .value (value.tokens ++ rest) := by
  obtain ⟨token, tail, htokens, hne⟩ := exists_cons_tokens value
  have htake : take stack .itemOrEnd token = take stack .value token := by
    rw [take, take]
    exact fun _ _ hclose => hne hclose
  rw [htokens, List.cons_append]
  cases stack <;> simp only [takeAll, htake]

mutual

/-- The tokens of a value are put together to the value. -/
theorem takeAll_tokens (value : Json) (stack : List Frame) (rest : List Token) :
    takeAll stack .value (value.tokens ++ rest) = takeAll stack (.after value) rest := by
  match value with
  | .null => exact takeAll_of_scalar rfl stack rest
  | .bool b => exact takeAll_of_scalar rfl stack rest
  | .natural n => exact takeAll_of_scalar rfl stack rest
  | .real => exact takeAll_of_scalar rfl stack rest
  | .string s => exact takeAll_of_scalar rfl stack rest
  | .array [] =>
    show takeAll stack .value (.openArray :: .closeArray :: rest) = _
    rw [takeAll_of_take rfl, takeAll_of_take rfl]
  | .array (item :: items) =>
    rw [tokens, List.cons_append, List.append_assoc, takeAll_of_take rfl, takeAll_itemOrEnd,
      takeAll_tokens item, takeAll_itemTokens items]
    rfl
  | .object [] =>
    show takeAll stack .value (.openObject :: .closeObject :: rest) = _
    rw [takeAll_of_take rfl, takeAll_of_take rfl]
  | .object ((name, value) :: members) =>
    rw [tokens, List.cons_append, List.cons_append, List.cons_append, List.append_assoc,
      takeAll_of_take rfl, takeAll_of_take rfl, takeAll_of_take rfl, takeAll_tokens value,
      takeAll_memberTokens members]
    rfl

theorem takeAll_itemTokens (items : List Json) (done : List Json) (value : Json)
    (stack : List Frame) (rest : List Token) :
    takeAll (.array done :: stack) (.after value) (itemTokens items ++ rest)
      = takeAll stack (.after (.array (done.reverse ++ value :: items))) rest := by
  match items with
  | [] =>
    rw [itemTokens, List.singleton_append, takeAll_of_take rfl, List.reverse_cons]
  | item :: items =>
    rw [itemTokens, List.cons_append, List.append_assoc, takeAll_of_take rfl, takeAll_tokens item,
      takeAll_itemTokens items, List.reverse_cons, List.append_assoc]
    rfl

theorem takeAll_memberTokens (members done : List (List Symbol × Json)) (name : List Symbol)
    (value : Json) (stack : List Frame) (rest : List Token) :
    takeAll (.object done name :: stack) (.after value) (memberTokens members ++ rest)
      = takeAll stack (.after (.object (done.reverse ++ (name, value) :: members))) rest := by
  match members with
  | [] =>
    rw [memberTokens, List.singleton_append, takeAll_of_take rfl, List.reverse_cons]
  | (nextName, member) :: members =>
    rw [memberTokens, List.cons_append, List.cons_append, List.cons_append, List.append_assoc,
      takeAll_of_take rfl, takeAll_of_take rfl, takeAll_of_take rfl, takeAll_tokens member,
      takeAll_memberTokens members, List.reverse_cons, List.append_assoc]
    rfl

end

theorem ofTokens?_tokens (value : Json) : ofTokens? value.tokens = some value := by
  have htokens := takeAll_tokens value [] []
  rw [List.append_nil] at htokens
  exact htokens

/-! ### Lines -/

variable {tokens : List Token} {rest : List Char}

theorem spells_newLine (h : Spells tokens rest) (indent : Nat) :
    Spells tokens (newLine indent ++ rest) := by
  refine .blank rfl ?_
  induction indent with
  | zero => exact h
  | succ indent ih => exact .blank rfl ih

theorem spells_nameText (h : Spells tokens rest) (name : List Symbol) :
    Spells (.string name :: .colon :: tokens) (nameText name ++ rest) := by
  have hcolon : Spells (.colon :: tokens) (Token.text .colon ++ ' ' :: rest) :=
    .token trivial (.blank rfl h)
  rw [nameText, List.append_assoc]
  exact .token trivial hcolon

theorem endsNumber_prettyItems (indent : Nat) (items : List Json) (rest : List Char) :
    EndsNumber (prettyItems indent items ++ rest) := by
  cases items with
  | nil => exact endsNumber_cons rfl _
  | cons => exact endsNumber_cons rfl _

theorem endsNumber_prettyMembers (indent : Nat) (members : List (List Symbol × Json))
    (rest : List Char) : EndsNumber (prettyMembers indent members ++ rest) := by
  cases members with
  | nil => exact endsNumber_cons rfl _
  | cons => exact endsNumber_cons rfl _

mutual

/-- The lines of a value spell its tokens. -/
theorem spells_prettyFrom {tokens : List Token} {rest : List Char} (value : Json) (indent : Nat)
    (hends : EndsNumber rest) (h : Spells tokens rest) :
    Spells (value.tokens ++ tokens) (prettyFrom indent value ++ rest) := by
  match value with
  | .null => exact .token trivial h
  | .bool b => exact .token trivial h
  | .natural n => exact .token hends h
  | .real => exact .token hends h
  | .string s => exact .token trivial h
  | .array [] => exact .token (t := .openArray) trivial (.token (t := .closeArray) trivial h)
  | .array (item :: items) =>
    -- what follows an item may not continue it if it is a number
    have hitem := spells_prettyFrom item (indent + 2) (endsNumber_prettyItems indent items rest)
      (spells_prettyItems items indent h)
    have hopen := Spells.token (t := .openArray) trivial (spells_newLine hitem (indent + 2))
    rw [Json.tokens, prettyFrom]
    simp only [List.cons_append, List.append_assoc]
    exact hopen
  | .object [] => exact .token (t := .openObject) trivial (.token (t := .closeObject) trivial h)
  | .object ((name, value) :: members) =>
    have hvalue := spells_prettyFrom value (indent + 2)
      (endsNumber_prettyMembers indent members rest) (spells_prettyMembers members indent h)
    have hopen := Spells.token (t := .openObject) trivial
      (spells_newLine (spells_nameText hvalue name) (indent + 2))
    rw [Json.tokens, prettyFrom]
    simp only [List.cons_append, List.append_assoc]
    exact hopen

theorem spells_prettyItems {tokens : List Token} {rest : List Char} (items : List Json)
    (indent : Nat) (h : Spells tokens rest) :
    Spells (itemTokens items ++ tokens) (prettyItems indent items ++ rest) := by
  match items with
  | [] =>
    rw [itemTokens, prettyItems, List.append_assoc]
    exact spells_newLine (.token (t := .closeArray) trivial h) indent
  | item :: items =>
    have hitem := spells_prettyFrom item (indent + 2) (endsNumber_prettyItems indent items rest)
      (spells_prettyItems items indent h)
    have hcomma := Spells.token (t := .comma) trivial (spells_newLine hitem (indent + 2))
    rw [itemTokens, prettyItems]
    simp only [List.cons_append, List.append_assoc]
    exact hcomma

theorem spells_prettyMembers {tokens : List Token} {rest : List Char}
    (members : List (List Symbol × Json)) (indent : Nat) (h : Spells tokens rest) :
    Spells (memberTokens members ++ tokens) (prettyMembers indent members ++ rest) := by
  match members with
  | [] =>
    rw [memberTokens, prettyMembers, List.append_assoc]
    exact spells_newLine (.token (t := .closeObject) trivial h) indent
  | (name, value) :: members =>
    have hvalue := spells_prettyFrom value (indent + 2)
      (endsNumber_prettyMembers indent members rest) (spells_prettyMembers members indent h)
    have hcomma := Spells.token (t := .comma) trivial
      (spells_newLine (spells_nameText hvalue name) (indent + 2))
    rw [memberTokens, prettyMembers]
    simp only [List.cons_append, List.append_assoc]
    exact hcomma

end

/-- A value is read back from its lines. -/
theorem parse?_pretty (value : Json) : parse? value.pretty = some value := by
  have hspells := spells_prettyFrom value 0 endsNumber_nil .nil
  rw [List.append_nil, List.append_nil] at hspells
  rw [parse?, pretty, scan_of_spells hspells, Option.bind_some, ofTokens?_tokens]

end Json
end TD4
