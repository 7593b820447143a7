/-
Values read back from text without blanks.

The compact text of a value is the text of its tokens, one after the other.  It
spells them because no number in it is followed by something that continues a
number: after an item or a member comes a comma or a closing bracket.

* `spells_tokens`: the tokens of a value, written one after the other, are
  spelled by what is written;
* `parse?_compact`: the compact text of a value is read as that value;
* `parse?_of_mem_layouts`: so is any of its two layouts.
-/
import TD4.Proofs.Json.Pretty

namespace TD4
namespace Json

/-- Tokens written one after the other. -/
def written (tokens : List Token) : List Char := tokens.flatMap Token.text

theorem written_cons (token : Token) (tokens : List Token) :
    written (token :: tokens) = token.text ++ written tokens :=
  List.flatMap_cons

theorem written_append (tokens others : List Token) :
    written (tokens ++ others) = written tokens ++ written others :=
  List.flatMap_append

variable {tokens : List Token} {rest : List Char}

/-- A token that may precede what follows is spelled by its text. -/
theorem spells_singleton {token : Token} (hmay : token.MayPrecede rest) (h : Spells tokens rest) :
    Spells (token :: tokens) (written [token] ++ rest) := by
  rw [written, List.flatMap_singleton]
  exact .token hmay h

theorem endsNumber_itemTokens (items : List Json) (rest : List Char) :
    EndsNumber (written (itemTokens items) ++ rest) := by
  cases items with
  | nil => exact endsNumber_cons rfl _
  | cons => exact endsNumber_cons rfl _

theorem endsNumber_memberTokens (members : List (List Symbol × Json)) (rest : List Char) :
    EndsNumber (written (memberTokens members) ++ rest) := by
  cases members with
  | nil => exact endsNumber_cons rfl _
  | cons => exact endsNumber_cons rfl _

mutual

/-- A value without blanks spells its tokens. -/
theorem spells_tokens {tokens : List Token} {rest : List Char} (value : Json)
    (hends : EndsNumber rest) (h : Spells tokens rest) :
    Spells (value.tokens ++ tokens) (written value.tokens ++ rest) := by
  match value with
  | .null => exact spells_singleton trivial h
  | .bool b => exact spells_singleton trivial h
  | .natural n => exact spells_singleton hends h
  | .real => exact spells_singleton hends h
  | .string s => exact spells_singleton trivial h
  | .array [] => exact .token (t := .openArray) trivial (.token (t := .closeArray) trivial h)
  | .array (item :: items) =>
    -- what follows an item may not continue it if it is a number
    have hitem := spells_tokens item (endsNumber_itemTokens items rest) (spells_itemTokens items h)
    have hopen := Spells.token (t := .openArray) trivial hitem
    rw [Json.tokens, written_cons, written_append]
    simp only [List.cons_append, List.append_assoc]
    exact hopen
  | .object [] => exact .token (t := .openObject) trivial (.token (t := .closeObject) trivial h)
  | .object ((name, value) :: members) =>
    have hvalue := spells_tokens value (endsNumber_memberTokens members rest)
      (spells_memberTokens members h)
    have hname := Spells.token (t := .string name) trivial (Spells.token (t := .colon) trivial hvalue)
    have hopen := Spells.token (t := .openObject) trivial hname
    rw [Json.tokens, written_cons, written_cons, written_cons, written_append]
    simp only [List.cons_append, List.append_assoc]
    exact hopen

theorem spells_itemTokens {tokens : List Token} {rest : List Char} (items : List Json)
    (h : Spells tokens rest) :
    Spells (itemTokens items ++ tokens) (written (itemTokens items) ++ rest) := by
  match items with
  | [] => exact spells_singleton trivial h
  | item :: items =>
    have hitem := spells_tokens item (endsNumber_itemTokens items rest) (spells_itemTokens items h)
    have hcomma := Spells.token (t := .comma) trivial hitem
    rw [itemTokens, written_cons, written_append]
    simp only [List.cons_append, List.append_assoc]
    exact hcomma

theorem spells_memberTokens {tokens : List Token} {rest : List Char}
    (members : List (List Symbol × Json)) (h : Spells tokens rest) :
    Spells (memberTokens members ++ tokens) (written (memberTokens members) ++ rest) := by
  match members with
  | [] => exact spells_singleton trivial h
  | (name, value) :: members =>
    have hvalue := spells_tokens value (endsNumber_memberTokens members rest)
      (spells_memberTokens members h)
    have hname := Spells.token (t := .string name) trivial (Spells.token (t := .colon) trivial hvalue)
    have hcomma := Spells.token (t := .comma) trivial hname
    rw [memberTokens, written_cons, written_cons, written_cons, written_append]
    simp only [List.cons_append, List.append_assoc]
    exact hcomma

end

/-- A value is read back from its text without blanks. -/
theorem parse?_compact (value : Json) : parse? value.compact = some value := by
  have hspells := spells_tokens value endsNumber_nil .nil
  rw [List.append_nil, List.append_nil] at hspells
  have hscan : scan value.compact = some value.tokens := scan_of_spells hspells
  rw [parse?, hscan, Option.bind_some, ofTokens?_tokens]

/-- The two ways in which a value is written. -/
def layouts (value : Json) : List (List Char) := [value.compact, value.pretty]

theorem parse?_of_mem_layouts {value : Json} {text : List Char} (h : text ∈ value.layouts) :
    parse? text = some value := by
  rcases List.mem_pair.mp h with rfl | rfl
  · exact parse?_compact value
  · exact parse?_pretty value

end Json
end TD4
