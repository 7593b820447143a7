/-
The grammar of JSON texts.

A text is an element: a value with blanks around it.  Items are elements with commas
between them, members are names and elements with a colon between them, and there is
no comma after the last one.  The rules follow the standard one by one, with what they
say of strings and numbers in `Lexeme`; nesting has no limit.

* `ElementText.lexed`: what the grammar derives for a value consists of its tokens;
* `parse?_of_elementText`: it is read as that value.
-/
import TD4.Proofs.Json.Pretty

namespace TD4
namespace Json

/-- Blanks, any number of them. -/
def Blanks (text : List Char) : Prop := ∀ c ∈ text, isSpace c = true

instance (text : List Char) : Decidable (Blanks text) :=
  decidable_of_iff (text.all isSpace = true) (by rw [Blanks, List.all_eq_true])

/-- The ways to write a name, with blanks around it. -/
inductive NameText : List Symbol → List Char → Prop
  | intro {name : List Symbol} {before text after : List Char} (hbefore : Blanks before)
      (h : StringText name text) (hafter : Blanks after) :
      NameText name (before ++ '\"' :: (text ++ '\"' :: after))

mutual

/-- The ways to write a value. -/
inductive ValueText : Json → List Char → Prop
  | null : ValueText .null "null".toList
  | true : ValueText (.bool true) "true".toList
  | false : ValueText (.bool false) "false".toList
  | natural {n : Nat} {text : List Char} (h : Whole n text) : ValueText (.natural n) text
  | real {text : List Char} (h : RealText text) : ValueText .real text
  | string {symbols : List Symbol} {text : List Char} (h : StringText symbols text) :
      ValueText (.string symbols) ('\"' :: (text ++ ['\"']))
  | emptyArray {gap : List Char} (h : Blanks gap) : ValueText (.array []) ('[' :: (gap ++ [']']))
  | array {items : List Json} {text : List Char} (h : ItemsText items text) :
      ValueText (.array items) ('[' :: (text ++ [']']))
  | emptyObject {gap : List Char} (h : Blanks gap) :
      ValueText (.object []) ('\x7b' :: (gap ++ ['\x7d']))
  | object {members : List (List Symbol × Json)} {text : List Char}
      (h : MembersText members text) : ValueText (.object members) ('\x7b' :: (text ++ ['\x7d']))

/-- The ways to write a value with blanks around it. -/
inductive ElementText : Json → List Char → Prop
  | intro {value : Json} {before text after : List Char} (hbefore : Blanks before)
      (h : ValueText value text) (hafter : Blanks after) :
      ElementText value (before ++ (text ++ after))

/-- The ways to write items, at least one. -/
inductive ItemsText : List Json → List Char → Prop
  | last {item : Json} {text : List Char} (h : ElementText item text) : ItemsText [item] text
  | more {item : Json} {items : List Json} {text rest : List Char} (h : ElementText item text)
      (hrest : ItemsText items rest) : ItemsText (item :: items) (text ++ ',' :: rest)

/-- The ways to write members, at least one. -/
inductive MembersText : List (List Symbol × Json) → List Char → Prop
  | last {name : List Symbol} {value : Json} {front text : List Char} (hname : NameText name front)
      (h : ElementText value text) : MembersText [(name, value)] (front ++ ':' :: text)
  | more {name : List Symbol} {value : Json} {members : List (List Symbol × Json)}
      {front text rest : List Char} (hname : NameText name front) (h : ElementText value text)
      (hrest : MembersText members rest) :
      MembersText ((name, value) :: members) (front ++ ':' :: (text ++ ',' :: rest))

end

variable {tokens : List Token} {rest text : List Char}

/-! ### Blanks -/

theorem Blanks.lexed {gap : List Char} (h : Blanks gap) (hrest : Lexed tokens rest) :
    Lexed tokens (gap ++ rest) := by
  induction gap with
  | nil => exact hrest
  | cons c gap ih =>
    exact .blank (h c List.mem_cons_self) (ih fun d hd => h d (List.mem_cons_of_mem c hd))

/-- A blank does not continue a number. -/
theorem Blanks.endsNumber {gap : List Char} (h : Blanks gap) (hends : EndsNumber rest) :
    EndsNumber (gap ++ rest) := by
  cases gap with
  | nil => exact hends
  | cons c gap =>
    have hc := h c List.mem_cons_self
    simp only [isSpace, Bool.or_eq_true, beq_iff_eq] at hc
    rcases hc with ((rfl | rfl) | rfl) | rfl <;> exact endsNumber_cons rfl _

/-! ### Tokens of what is derived -/

theorem NameText.lexed {name : List Symbol} (h : NameText name text) (hrest : Lexed tokens rest) :
    Lexed (.string name :: .colon :: tokens) (text ++ ':' :: rest) := by
  cases h with
  | intro hbefore hname hafter =>
    have hcolon := hafter.lexed (.token .colon trivial hrest)
    have hquoted := hbefore.lexed (.token (.string hname) trivial hcolon)
    simpa using hquoted

mutual

/-- Every way to write a value consists of the tokens of the value.  What follows must
not continue it if it is a number. -/
theorem ValueText.lexed {tokens : List Token} {rest text : List Char} {value : Json}
    (h : ValueText value text) (hends : EndsNumber rest) (hrest : Lexed tokens rest) :
    Lexed (value.tokens ++ tokens) (text ++ rest) := by
  match h with
  | .null => exact .token .null trivial hrest
  | .true => exact .token .true trivial hrest
  | .false => exact .token .false trivial hrest
  | .natural hwhole => exact .token (.natural hwhole) hends hrest
  | .real hreal => exact .token (.real hreal) hends hrest
  | .string hstring => exact .token (.string hstring) trivial hrest
  | .emptyArray hgap =>
    have hopen := Lexed.token .openArray trivial (hgap.lexed (.token .closeArray trivial hrest))
    simpa [Json.tokens] using hopen
  | .array hitems =>
    obtain ⟨item, items, rfl, hlexed⟩ := hitems.lexed hrest
    have hopen := Lexed.token .openArray trivial hlexed
    simpa [Json.tokens] using hopen
  | .emptyObject hgap =>
    have hopen := Lexed.token .openObject trivial (hgap.lexed (.token .closeObject trivial hrest))
    simpa [Json.tokens] using hopen
  | .object hmembers =>
    obtain ⟨name, value, members, rfl, hlexed⟩ := hmembers.lexed hrest
    have hopen := Lexed.token .openObject trivial hlexed
    simpa [Json.tokens] using hopen

theorem ElementText.lexed {tokens : List Token} {rest text : List Char} {value : Json}
    (h : ElementText value text) (hends : EndsNumber rest) (hrest : Lexed tokens rest) :
    Lexed (value.tokens ++ tokens) (text ++ rest) := by
  match h with
  | .intro hbefore hvalue hafter =>
    have hlexed := hvalue.lexed (hafter.endsNumber hends) (hafter.lexed hrest)
    have hpadded := hbefore.lexed hlexed
    simpa using hpadded

theorem ItemsText.lexed {tokens : List Token} {rest text : List Char} {items : List Json}
    (h : ItemsText items text) (hrest : Lexed tokens rest) :
    ∃ first others, items = first :: others ∧
      Lexed (first.tokens ++ (itemTokens others ++ tokens)) (text ++ ']' :: rest) := by
  match h with
  | .last hitem =>
    have hclose := Lexed.token .closeArray trivial hrest
    exact ⟨_, _, rfl, hitem.lexed (endsNumber_cons rfl _) hclose⟩
  | .more hitem hitems =>
    -- there is a next item for the comma to stand before
    obtain ⟨next, others, rfl, hlexed⟩ := hitems.lexed hrest
    have hcomma := Lexed.token .comma trivial hlexed
    refine ⟨_, _, rfl, ?_⟩
    have hfirst := hitem.lexed (endsNumber_cons rfl _) hcomma
    simpa [itemTokens] using hfirst

theorem MembersText.lexed {tokens : List Token} {rest text : List Char}
    {members : List (List Symbol × Json)} (h : MembersText members text)
    (hrest : Lexed tokens rest) :
    ∃ name value others, members = (name, value) :: others ∧
      Lexed (.string name :: .colon :: (value.tokens ++ (memberTokens others ++ tokens)))
        (text ++ '\x7d' :: rest) := by
  match h with
  | .last hname hvalue =>
    have hclose := Lexed.token .closeObject trivial hrest
    have hfirst := hname.lexed (hvalue.lexed (endsNumber_cons rfl _) hclose)
    exact ⟨_, _, _, rfl, by simpa [memberTokens] using hfirst⟩
  | .more hname hvalue hmembers =>
    obtain ⟨next, value, others, rfl, hlexed⟩ := hmembers.lexed hrest
    have hcomma := Lexed.token .comma trivial hlexed
    have hfirst := hname.lexed (hvalue.lexed (endsNumber_cons rfl _) hcomma)
    exact ⟨_, _, _, rfl, by simpa [memberTokens] using hfirst⟩

end

/-- Every text of a value is read as that value. -/
theorem parse?_of_elementText {value : Json} (h : ElementText value text) :
    parse? text = some value := by
  have hlexed := h.lexed endsNumber_nil .nil
  rw [List.append_nil, List.append_nil] at hlexed
  rw [parse?, scan_of_lexed hlexed, Option.bind_some, ofTokens?_tokens]

end Json
end TD4
