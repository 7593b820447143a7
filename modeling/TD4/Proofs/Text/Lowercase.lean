/-
What lower case keeps.

The full mapping may turn one letter into several, or look at its neighbours,
but an ASCII character always becomes its ASCII lower-case form
(`toLower_mem_lowercase`).  So a character without case, such as a colon, is
never lost.

The ASCII mapping changes no character but the 26 capital letters; what it
leaves alone there it leaves alone everywhere (`apply_toLower`).
-/
import TD4.Text.Blank
import TD4.Text.Lowercase

namespace TD4
namespace Text

/-! ### ASCII letters -/

theorem toLower_eq_self_or (c : Char) : c.toLower = c ∨ ∃ n < 26, c = Char.ofNat (65 + n) := by
  by_cases hupper : c.val ≥ 'A'.val ∧ c.val ≤ 'Z'.val
  · right
    have hfirst : 65 ≤ c.toNat := UInt32.le_iff_toNat_le.mp hupper.1
    have hlast : c.toNat ≤ 90 := UInt32.le_iff_toNat_le.mp hupper.2
    refine ⟨c.toNat - 65, by omega, ?_⟩
    rw [Nat.add_sub_cancel' hfirst, Char.ofNat_toNat]
  · left
    exact dif_neg hupper

/-- What is the same for both cases of each letter does not see the case. -/
theorem apply_toLower {α : Type} {f : Char → α}
    (h : ∀ n < 26, f (Char.ofNat (65 + n)).toLower = f (Char.ofNat (65 + n))) (c : Char) :
    f c.toLower = f c := by
  rcases toLower_eq_self_or c with hsame | ⟨n, hn, rfl⟩
  · rw [hsame]
  · exact h n hn

theorem isBlank_toLower (c : Char) : isBlank c.toLower = isBlank c :=
  apply_toLower (by decide) c

/-! ### Characters that are kept -/

theorem lowerWithin_ascii {c : Char} (hc : c.val < 0x80) (before after : List Char) :
    lowerWithin before c after = [c.toLower] := by
  have hne : c ≠ 'Σ' := by
    rintro rfl
    exact absurd hc (by decide)
  rw [lowerWithin, if_neg hne, lowerChar, if_pos hc]

theorem toLower_mem_lowercaseAfter {c : Char} (hc : c.val < 0x80) {text : List Char}
    (h : c ∈ text) (before : List Char) : c.toLower ∈ lowercaseAfter before text := by
  induction text generalizing before with
  | nil => exact absurd h List.not_mem_nil
  | cons d rest ih =>
    rw [lowercaseAfter, List.mem_append]
    rcases List.mem_cons.mp h with rfl | hrest
    · left
      -- no neighbour can change an ASCII character
      rw [lowerWithin_ascii hc]
      exact List.mem_singleton.mpr rfl
    · right
      exact ih hrest (d :: before)

/-- An ASCII character of a text is in its lower case as its own lower-case form. -/
theorem toLower_mem_lowercase {c : Char} (hc : c.val < 0x80) {text : List Char} (h : c ∈ text) :
    c.toLower ∈ lowercase text :=
  toLower_mem_lowercaseAfter hc h []

end Text
end TD4
