/-
Lower case of a text.

`lowercase` is the full Unicode mapping: every letter takes its lower-case
form, one letter becomes two characters, and the Greek capital sigma depends on
its place, since a sigma that ends a word has a form of its own.

* `lowercase_ascii`: on ASCII text it is the mapping of each character by itself.
-/
import TD4.Text.CaseTable

namespace TD4
namespace Text

/-- The lower-case form of a character, its place left aside. -/
def lowerChar (c : Char) : List Char :=
  if c.val < 0x80 then [c.toLower]
  else if c = '\u0130' then ['i', '\u0307']
  else
    let n := c.toNat
    match lowerRanges.find? fun (first, last, distance, _) =>
        decide (first ≤ n) && decide (n ≤ last) && (n - first) % distance == 0 with
    | some (first, _, _, form) => [Char.ofNat (form + (n - first))]
    | none => [c]

/-- Is the first character that is not ignorable one that has case? -/
def meetsCased (cs : List Char) : Bool :=
  match cs.dropWhile fun c => inRanges ignorableRanges c.toNat with
  | [] => false
  | c :: _ => inRanges casedRanges c.toNat

/-- The lower-case form of a character between what stands before it, nearest
first, and what stands after it.  Only a sigma looks at them: it ends a word if
something with case stands before and nothing with case follows. -/
def lowerWithin (before : List Char) (c : Char) (after : List Char) : List Char :=
  if c = 'Σ' then
    if meetsCased before && !meetsCased after then ['ς'] else ['σ']
  else lowerChar c

/-- Lower case of a text that follows another text, given in reverse. -/
def lowercaseAfter : List Char → List Char → List Char
  | _, [] => []
  | before, c :: rest => lowerWithin before c rest ++ lowercaseAfter (c :: before) rest

/-- Lower case of a text. -/
def lowercase (text : List Char) : List Char := lowercaseAfter [] text

theorem lowercaseAfter_ascii {text : List Char} (h : ∀ c ∈ text, c.val < 0x80)
    (before : List Char) : lowercaseAfter before text = text.map Char.toLower := by
  induction text generalizing before with
  | nil => rfl
  | cons c rest ih =>
    have hc : c.val < 0x80 := h c (List.mem_cons_self ..)
    have hrest : ∀ d ∈ rest, d.val < 0x80 := fun d hd => h d (List.mem_cons_of_mem _ hd)
    have hne : c ≠ 'Σ' := by
      intro heq
      rw [heq] at hc
      exact absurd hc (by decide)
    simp [lowercaseAfter, lowerWithin, lowerChar, hne, hc, ih hrest]

theorem lowercase_ascii {text : List Char} (h : ∀ c ∈ text, c.val < 0x80) :
    lowercase text = text.map Char.toLower :=
  lowercaseAfter_ascii h []

end Text
end TD4
