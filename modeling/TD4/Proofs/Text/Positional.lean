/-
Digits and their value.

`Positional base text n` is the positional notation: a text of digits, at least
one of them, with the most significant first, and the number they stand for.
Zeros may stand in front, and letters may be in either case.

Numbers are written in it, and may be filled up with zeros (`positional_toDigits`,
`positional_padStart`).  This is just what the reader of digits accepts (`natural?_eq_some_iff`); the
other reader lets one plus sign stand in front of it (`signless?_eq_some_iff`).
-/
import TD4.Proofs.Text.Numeral
import Mathlib.Data.List.Forall2
import Mathlib.Data.Nat.Digits.Defs
import Mathlib.Tactic.Ring

namespace TD4
namespace Text

/-- A character is the digit of a value in a base. -/
def IsDigit (base d : Nat) (c : Char) : Prop :=
  d < base ∧ (c = d.digitChar ∨ c = d.digitChar.toUpper)

/-- A text of digits with its value. -/
def Positional (base : Nat) (text : List Char) (n : Nat) : Prop :=
  ∃ ds, ds ≠ [] ∧ List.Forall₂ (IsDigit base) ds text ∧ n = Nat.ofDigits base ds.reverse

variable {base d n : Nat} {c : Char} {text : List Char}

theorem eq_digitChar_of_digit? (h : digit? base c = some d) :
    c = d.digitChar ∨ c = d.digitChar.toUpper := by
  have hnumber : ∀ d < 10, Char.ofNat (48 + d) = d.digitChar := by decide
  have hsmall : ∀ d < 16, 10 ≤ d → Char.ofNat (87 + d) = d.digitChar := by decide
  have hcapital : ∀ d < 16, 10 ≤ d → Char.ofNat (55 + d) = d.digitChar.toUpper := by decide
  obtain ⟨hvalue, -⟩ := Option.filter_eq_some_iff.mp h
  rw [← Char.ofNat_toNat c]
  split at hvalue
  case isTrue hrange =>
    have hd : d = c.toNat - 48 := (Option.some.inj hvalue).symm
    rw [← hnumber d (by omega)]
    exact Or.inl (congrArg Char.ofNat (by omega))
  case isFalse =>
    split at hvalue
    case isTrue hrange =>
      have hd : d = c.toNat - 87 := (Option.some.inj hvalue).symm
      rw [← hsmall d (by omega) (by omega)]
      exact Or.inl (congrArg Char.ofNat (by omega))
    case isFalse =>
      split at hvalue
      case isTrue hrange =>
        have hd : d = c.toNat - 55 := (Option.some.inj hvalue).symm
        rw [← hcapital d (by omega) (by omega)]
        exact Or.inr (congrArg Char.ofNat (by omega))
      case isFalse => cases hvalue

theorem digit?_eq_some_iff (hbase : base ≤ 16) : digit? base c = some d ↔ IsDigit base d c := by
  constructor
  · intro h
    obtain ⟨-, hlt⟩ := Option.filter_eq_some_iff.mp h
    exact ⟨of_decide_eq_true hlt, eq_digitChar_of_digit? h⟩
  · rintro ⟨hlt, rfl | rfl⟩
    · exact digit?_digitChar hlt hbase
    · rw [digit?_toUpper_digitChar (Nat.lt_of_lt_of_le hlt hbase)]
      exact digit?_digitChar hlt hbase

theorem isDigit_of_digit?_ten (h : digit? 10 c = some d) : c.isDigit = true := by
  have hall : ∀ d < 10, d.digitChar.isDigit = true ∧ d.digitChar.toUpper.isDigit = true := by
    decide
  obtain ⟨hlt, rfl | rfl⟩ := (digit?_eq_some_iff (by decide)).mp h
  · exact (hall d hlt).1
  · exact (hall d hlt).2

/-- The value read so far moves up one place with each digit. -/
theorem continueNatural_eq_some_iff (hbase : base ≤ 16) (value : Nat) :
    continueNatural base value text = some n ↔ ∃ ds, List.Forall₂ (IsDigit base) ds text ∧
      n = Nat.ofDigits base ds.reverse + base ^ ds.length * value := by
  induction text generalizing value with
  | nil => simp [continueNatural, eq_comm]
  | cons c rest ih =>
    have hcons : continueNatural base value (c :: rest)
        = (digit? base c).bind fun d => continueNatural base (value * base + d) rest := by
      rw [continueNatural, List.foldlM_cons]
      rcases digit? base c with _ | d <;> rfl
    have hplaces : ∀ (d : Nat) (ds : List Nat),
        Nat.ofDigits base (d :: ds).reverse + base ^ (d :: ds).length * value
          = Nat.ofDigits base ds.reverse + base ^ ds.length * (value * base + d) := by
      intro d ds
      rw [Nat.ofDigits_reverse_cons, List.length_cons]
      ring
    rw [hcons, Option.bind_eq_some_iff]
    constructor
    · rintro ⟨d, hd, hrest⟩
      obtain ⟨ds, hds, rfl⟩ := (ih _).mp hrest
      exact ⟨d :: ds, .cons ((digit?_eq_some_iff hbase).mp hd) hds, (hplaces d ds).symm⟩
    · rintro ⟨_, hall, rfl⟩
      cases hall with
      | @cons d _ ds _ hd hds =>
        exact ⟨d, (digit?_eq_some_iff hbase).mpr hd, (ih _).mpr ⟨ds, hds, hplaces d ds⟩⟩

/-- What is read as a number is positional notation, with its value. -/
theorem natural?_eq_some_iff (hbase : base ≤ 16) :
    natural? base text = some n ↔ Positional base text n := by
  rw [natural?]
  split
  case isTrue hnil =>
    rw [List.isEmpty_iff.mp hnil]
    constructor
    · intro h
      cases h
    · rintro ⟨ds, hne, hall, -⟩
      cases hall
      exact absurd rfl hne
  case isFalse hnil =>
    rw [continueNatural_eq_some_iff hbase]
    constructor
    · rintro ⟨ds, hall, rfl⟩
      refine ⟨ds, ?_, hall, by rw [Nat.mul_zero, Nat.add_zero]⟩
      rintro rfl
      cases hall
      exact hnil rfl
    · rintro ⟨ds, -, hall, rfl⟩
      exact ⟨ds, hall, by rw [Nat.mul_zero, Nat.add_zero]⟩

namespace Positional

theorem ne_nil (h : Positional base text n) : text ≠ [] := by
  obtain ⟨ds, hne, hall, -⟩ := h
  rintro rfl
  cases hall
  exact hne rfl

theorem digit? (hbase : base ≤ 16) (h : Positional base text n) :
    ∀ c ∈ text, ∃ d, Text.digit? base c = some d :=
  digit?_of_natural? ((natural?_eq_some_iff hbase).mpr h)

theorem isDigit (h : Positional 10 text n) : ∀ c ∈ text, c.isDigit = true := by
  intro c hc
  obtain ⟨d, hd⟩ := h.digit? (by decide) c hc
  exact isDigit_of_digit?_ten hd

end Positional

/-! ### Numbers written out -/

theorem positional_toDigits (hone : 1 < base) (hbase : base ≤ 16) (n : Nat) :
    Positional base (Nat.toDigits base n) n :=
  (natural?_eq_some_iff hbase).mp (natural?_toDigits hone hbase n)

theorem positional_hexadecimal (n : Nat) : Positional 16 (hexadecimal n) n :=
  (natural?_eq_some_iff (by decide)).mp (natural?_hexadecimal n)

/-- Zeros in front of a number do not count. -/
theorem positional_padStart (hzero : 0 < base) (hbase : base ≤ 16) (h : Positional base text n)
    (width : Nat) : Positional base (padStart width '0' text) n := by
  have hread := (natural?_eq_some_iff hbase).mpr h
  rw [← natural?_zeros_append hzero (width - text.length) h.ne_nil] at hread
  exact (natural?_eq_some_iff hbase).mp hread

theorem length_padStart {width : Nat} (h : text.length ≤ width) (fill : Char) :
    (padStart width fill text).length = width := by
  rw [padStart, List.length_append, List.length_replicate]
  omega

/-! ### Signs -/

theorem signless?_eq_some_iff (hbase : base ≤ 16) :
    signless? base text = some n ↔
      Positional base text n ∨ ∃ digits, text = '+' :: digits ∧ Positional base digits n := by
  constructor
  · intro h
    unfold signless? at h
    split at h
    case h_1 digits => exact Or.inr ⟨digits, rfl, (natural?_eq_some_iff hbase).mp h⟩
    case h_2 => exact Or.inl ((natural?_eq_some_iff hbase).mp h)
  · rintro (h | ⟨digits, rfl, h⟩)
    · exact signless?_of_natural? ((natural?_eq_some_iff hbase).mpr h)
    · exact (natural?_eq_some_iff hbase).mpr h

end Text
end TD4
