/-
Texts that differ in the case of ASCII letters.

Such texts have the same ASCII lower-case form, which is what the readers are
compared on: a reader of the lowered text stops where it stops in the text
(`takeWhile_map_toLower`, `dropWhile_map_toLower`, `trim_map_toLower`).  And
full lower case does not see the difference at all (`lowercase_map_toLower`).

A sigma at the end of a word looks at its neighbours, but only at whether they
have case and whether they are passed over; both cases of a letter agree in
that.
-/
import TD4.Proofs.Text.LowercaseWords
import Mathlib.Data.List.Forall2

namespace TD4
namespace Text

/-- Two characters that are the same, or one letter of ASCII in its two cases. -/
inductive SameLetter : Char → Char → Prop
  | same (c : Char) : SameLetter c c
  | lower (c : Char) : SameLetter c c.toLower
  | upper (c : Char) : SameLetter c c.toUpper

/-- Two texts that differ at most in the case of ASCII letters. -/
def SameLetters (text other : List Char) : Prop := List.Forall₂ SameLetter text other

theorem sameLetter_iff {c d : Char} : SameLetter c d ↔ d = c ∨ d = c.toLower ∨ d = c.toUpper := by
  constructor
  · rintro (_ | _ | _)
    · exact Or.inl rfl
    · exact Or.inr (Or.inl rfl)
    · exact Or.inr (Or.inr rfl)
  · rintro (rfl | rfl | rfl)
    · exact .same _
    · exact .lower c
    · exact .upper c

instance (c d : Char) : Decidable (SameLetter c d) := decidable_of_iff _ sameLetter_iff.symm

instance (text other : List Char) : Decidable (SameLetters text other) :=
  inferInstanceAs (Decidable (List.Forall₂ SameLetter text other))

theorem toLower_toLower (c : Char) : c.toLower.toLower = c.toLower :=
  apply_toLower (f := Char.toLower) (by decide) c

theorem toLower_toUpper (c : Char) : c.toUpper.toLower = c.toLower := by
  by_cases hlower : 'a'.val ≤ c.val ∧ c.val ≤ 'z'.val
  · have hall : ∀ n < 26, (Char.ofNat (97 + n)).toUpper.toLower = (Char.ofNat (97 + n)).toLower := by
      decide
    have hfirst : 97 ≤ c.toNat := UInt32.le_iff_toNat_le.mp hlower.1
    have hlast : c.toNat ≤ 122 := UInt32.le_iff_toNat_le.mp hlower.2
    have hletter := hall (c.toNat - 97) (by omega)
    rwa [Nat.add_sub_cancel' hfirst, Char.ofNat_toNat] at hletter
  · have hsame : c.toUpper = c := dif_neg hlower
    rw [hsame]

theorem SameLetter.toLower_eq {c d : Char} (h : SameLetter c d) : d.toLower = c.toLower := by
  cases h with
  | same => rfl
  | lower => exact toLower_toLower c
  | upper => exact toLower_toUpper c

theorem SameLetters.map_toLower_eq {text other : List Char} (h : SameLetters text other) :
    other.map Char.toLower = text.map Char.toLower := by
  induction h with
  | nil => rfl
  | cons hc _ ih => rw [List.map_cons, List.map_cons, hc.toLower_eq, ih]

/-! ### Readers of the lowered text -/

section Readers

variable {p : Char → Bool} (hp : ∀ c, p c.toLower = p c) (text : List Char)

include hp

theorem takeWhile_map_toLower :
    (text.map Char.toLower).takeWhile p = (text.takeWhile p).map Char.toLower := by
  have hcomp : p ∘ Char.toLower = p := funext hp
  rw [List.takeWhile_map, hcomp]

theorem dropWhile_map_toLower :
    (text.map Char.toLower).dropWhile p = (text.dropWhile p).map Char.toLower := by
  have hcomp : p ∘ Char.toLower = p := funext hp
  rw [List.dropWhile_map, hcomp]

end Readers

theorem trim_map_toLower (text : List Char) :
    trim (text.map Char.toLower) = (trim text).map Char.toLower := by
  rw [trim, trimStart, dropWhile_map_toLower isBlank_toLower, trimEnd, ← List.map_reverse,
    dropWhile_map_toLower isBlank_toLower, ← List.map_reverse]
  rfl

/-! ### Lower case -/

theorem meetsCased_map_toLower (cs : List Char) :
    meetsCased (cs.map Char.toLower) = meetsCased cs := by
  have hignorable : ∀ c : Char,
      inRanges ignorableRanges c.toLower.toNat = inRanges ignorableRanges c.toNat :=
    apply_toLower (f := fun c => inRanges ignorableRanges c.toNat) (by decide +kernel)
  have hcased : ∀ c : Char,
      inRanges casedRanges c.toLower.toNat = inRanges casedRanges c.toNat :=
    apply_toLower (f := fun c => inRanges casedRanges c.toNat) (by decide +kernel)
  induction cs with
  | nil => rfl
  | cons c rest ih =>
    rw [List.map_cons, meetsCased_cons, meetsCased_cons, hignorable, hcased, ih]

theorem lowerWithin_map_toLower (before after : List Char) (c : Char) :
    lowerWithin (before.map Char.toLower) c.toLower (after.map Char.toLower)
      = lowerWithin before c after := by
  rcases toLower_eq_self_or c with hsame | ⟨n, hn, rfl⟩
  · rw [hsame, lowerWithin, lowerWithin, meetsCased_map_toLower, meetsCased_map_toLower]
  · -- a letter of ASCII does not look at its neighbours
    have hascii : ∀ n < 26, (Char.ofNat (65 + n)).val < 0x80 ∧
        (Char.ofNat (65 + n)).toLower.val < 0x80 := by decide
    rw [lowerWithin_ascii (hascii n hn).1, lowerWithin_ascii (hascii n hn).2, toLower_toLower]

/-- Lower case does not see the case of ASCII letters. -/
theorem lowercase_map_toLower (text : List Char) :
    lowercase (text.map Char.toLower) = lowercase text := by
  -- what stands before grows along the text, so the induction lets it vary
  suffices hafter : ∀ before, lowercaseAfter (before.map Char.toLower) (text.map Char.toLower)
      = lowercaseAfter before text from hafter []
  induction text with
  | nil =>
    intro before
    rfl
  | cons c rest ih =>
    intro before
    rw [List.map_cons, lowercaseAfter, lowercaseAfter, lowerWithin_map_toLower, ← List.map_cons,
      ih]

end Text
end TD4
