/-
Numbers written and read back.

A number written in a base up to 16 is read back in that base
(`natural?_toDigits`), also with zeros in front (`natural?_zeros_append`) and,
in hexadecimal, once the capital letters are lowered
(`natural?_lower_hexByte`).

What is written consists of ASCII letters and digits (`isAlphanum_of_mem_decimal`,
`isAlphanum_of_mem_hexByte`), so no reader of words or lines cuts it.
-/
import TD4.Text.Digits
import TD4.Text.Numeral
import TD4.Text.Blank
import Mathlib.Tactic.IntervalCases

namespace TD4
namespace Text

/-! ### Letters and digits -/

theorem isDigit_iff {c : Char} : c.isDigit = true ↔ 48 ≤ c.toNat ∧ c.toNat ≤ 57 := by
  simp [Char.isDigit, UInt32.le_iff_toNat_le]

theorem isAlpha_iff {c : Char} :
    c.isAlpha = true ↔ 65 ≤ c.toNat ∧ c.toNat ≤ 90 ∨ 97 ≤ c.toNat ∧ c.toNat ≤ 122 := by
  rw [show c.isAlpha = (decide ('A'.val ≤ c.val ∧ c.val ≤ 'Z'.val)
    || (decide ('a'.val ≤ c.val) && decide (c.val ≤ 'z'.val))) from rfl]
  simp [UInt32.le_iff_toNat_le]

theorem isAlphanum_iff {c : Char} :
    c.isAlphanum = true ↔ 48 ≤ c.toNat ∧ c.toNat ≤ 57 ∨ 65 ≤ c.toNat ∧ c.toNat ≤ 90 ∨
      97 ≤ c.toNat ∧ c.toNat ≤ 122 := by
  rw [Char.isAlphanum, Bool.or_eq_true, isDigit_iff, isAlpha_iff]
  omega

theorem isBlank_of_isAlphanum {c : Char} (h : c.isAlphanum = true) : isBlank c = false := by
  have := isAlphanum_iff.mp h
  simp only [isBlank, Bool.or_eq_false_iff, Bool.and_eq_false_iff, beq_eq_false_iff_ne,
    decide_eq_false_iff_not]
  omega

theorem ascii_of_isAlphanum {c : Char} (h : c.isAlphanum = true) : c.val < 0x80 := by
  have := isAlphanum_iff.mp h
  rw [UInt32.lt_iff_toNat_lt]
  show c.toNat < 128
  omega

/-! ### Digits -/

theorem digit?_digitChar {base d : Nat} (hd : d < base) (hbase : base ≤ 16) :
    digit? base d.digitChar = some d := by
  have h16 : d < 16 := Nat.lt_of_lt_of_le hd hbase
  have hvalue : digit? 16 d.digitChar = some d := by
    interval_cases d <;> rfl
  unfold digit? at hvalue ⊢
  obtain ⟨hsome, -⟩ := Option.filter_eq_some_iff.mp hvalue
  exact Option.filter_eq_some_iff.mpr ⟨hsome, by simpa using hd⟩

theorem exists_of_mem_toDigits {base : Nat} (hbase : 1 < base) {n : Nat} {c : Char}
    (h : c ∈ Nat.toDigits base n) : ∃ d < base, c = d.digitChar := by
  induction n using Nat.strongRecOn with
  | _ n ih =>
    rw [Nat.toDigits_eq_if hbase] at h
    split at h
    case isTrue hlt =>
      exact ⟨n, hlt, List.mem_singleton.mp h⟩
    case isFalse hge =>
      rcases List.mem_append.mp h with hfront | hlast
      · have hsmaller : n / base < n := Nat.div_lt_self (by omega) hbase
        exact ih (n / base) hsmaller hfront
      · exact ⟨n % base, Nat.mod_lt _ (by omega), List.mem_singleton.mp hlast⟩

theorem isAlphanum_toUpper_digitChar {d : Nat} (h : d < 16) :
    d.digitChar.toUpper.isAlphanum = true := by
  interval_cases d <;> rfl

theorem toLower_digitChar {d : Nat} (h : d < 16) : d.digitChar.toLower = d.digitChar := by
  interval_cases d <;> rfl

theorem toLower_toUpper_digitChar {d : Nat} (h : d < 16) :
    d.digitChar.toUpper.toLower = d.digitChar := by
  interval_cases d <;> rfl

/-! ### Reading what was written -/

/-- A number written in a base is read in that base. -/
theorem natural?_toDigits {base : Nat} (hone : 1 < base) (hbase : base ≤ 16) (n : Nat) :
    natural? base (Nat.toDigits base n) = some n := by
  induction n using Nat.strongRecOn with
  | _ n ih =>
    rw [Nat.toDigits_eq_if hone]
    split
    case isTrue hlt =>
      simp [natural?, continueNatural, digit?_digitChar hlt hbase]
    case isFalse hge =>
      have hsmaller : n / base < n := Nat.div_lt_self (by omega) hone
      have hlast : digit? base (n % base).digitChar = some (n % base) :=
        digit?_digitChar (Nat.mod_lt _ (by omega)) hbase
      rw [natural?_append_digit (ih (n / base) hsmaller) hlast, Nat.div_add_mod']

theorem continueNatural_zeros {base : Nat} (hbase : 0 < base) (k : Nat) :
    continueNatural base 0 (List.replicate k '0') = some 0 := by
  have hzero : digit? base '0' = some 0 := by
    simp [digit?, hbase]
  induction k with
  | zero => rfl
  | succ k ih =>
    rw [List.replicate_succ', continueNatural_append, ih]
    simp [continueNatural, hzero]

/-- Zeros in front of a number do not count. -/
theorem natural?_zeros_append {base : Nat} (hbase : 0 < base) (k : Nat) {digits : List Char}
    (hne : digits ≠ []) :
    natural? base (List.replicate k '0' ++ digits) = natural? base digits := by
  have hfull : (List.replicate k '0' ++ digits).isEmpty = false := by
    simp [hne]
  have hdigits : digits.isEmpty = false := by
    simp [hne]
  rw [natural?, natural?, hfull, hdigits, continueNatural_append, continueNatural_zeros hbase]
  rfl

/-! ### What is read consists of digits -/

theorem isAlphanum_of_digit? {base d : Nat} {c : Char} (h : digit? base c = some d) :
    c.isAlphanum = true := by
  obtain ⟨hvalue, -⟩ := Option.filter_eq_some_iff.mp h
  have hrange : 48 ≤ c.toNat ∧ c.toNat ≤ 57 ∨ 65 ≤ c.toNat ∧ c.toNat ≤ 90 ∨
      97 ≤ c.toNat ∧ c.toNat ≤ 122 := by
    split at hvalue
    · omega
    · split at hvalue
      · omega
      · split at hvalue
        · omega
        · cases hvalue
  exact isAlphanum_iff.mpr hrange

theorem digit?_of_continueNatural {base : Nat} {digits : List Char} :
    ∀ {value n : Nat}, continueNatural base value digits = some n →
      ∀ c ∈ digits, ∃ d, digit? base c = some d := by
  induction digits with
  | nil =>
    intro value n _ c hc
    exact absurd hc List.not_mem_nil
  | cons first rest ih =>
    intro value n h c hc
    rw [continueNatural] at h
    rw [List.foldlM_cons] at h
    obtain ⟨next, hfirst, hrest⟩ := Option.bind_eq_some_iff.mp h
    obtain ⟨d, hd, -⟩ := Option.map_eq_some_iff.mp hfirst
    rcases List.mem_cons.mp hc with rfl | hmem
    · exact ⟨d, hd⟩
    · exact ih hrest c hmem

/-- A text that is read as a number has nothing but digits. -/
theorem digit?_of_natural? {base n : Nat} {digits : List Char}
    (h : natural? base digits = some n) : ∀ c ∈ digits, ∃ d, digit? base c = some d := by
  rw [natural?] at h
  split at h
  · cases h
  · exact digit?_of_continueNatural h

theorem signless?_of_natural? {base n : Nat} {digits : List Char}
    (h : natural? base digits = some n) : signless? base digits = some n := by
  unfold signless?
  split
  case h_1 rest =>
    -- a plus sign is no digit
    obtain ⟨d, hd⟩ := digit?_of_natural? h '+' List.mem_cons_self
    cases isAlphanum_of_digit? hd
  case h_2 => exact h

/-- Without digits a text that is read as a number has at most a plus sign. -/
theorem mem_of_signless? {base n : Nat} {digits : List Char}
    (h : signless? base digits = some n) : ∀ c ∈ digits, c.isAlphanum = true ∨ c = '+' := by
  have hdigit : ∀ {rest : List Char}, natural? base rest = some n →
      ∀ c ∈ rest, c.isAlphanum = true := by
    intro rest hrest c hc
    obtain ⟨d, hd⟩ := digit?_of_natural? hrest c hc
    exact isAlphanum_of_digit? hd
  intro c hc
  unfold signless? at h
  split at h
  case h_1 rest =>
    rcases List.mem_cons.mp hc with rfl | hmem
    · exact Or.inr rfl
    · exact Or.inl (hdigit h c hmem)
  case h_2 => exact Or.inl (hdigit h c hc)

/-! ### Decimal and hexadecimal -/

theorem natural?_decimal (n : Nat) : natural? 10 (decimal n) = some n :=
  natural?_toDigits (by decide) (by decide) n

theorem decimal_ne_nil (n : Nat) : decimal n ≠ [] := Nat.toDigits_ne_nil

theorem isDigit_of_mem_decimal {n : Nat} {c : Char} (h : c ∈ decimal n) : c.isDigit = true :=
  Nat.isDigit_of_mem_toDigits (by decide) (by decide) h

theorem isAlphanum_of_mem_decimal {n : Nat} {c : Char} (h : c ∈ decimal n) :
    c.isAlphanum = true := by
  simp [Char.isAlphanum, isDigit_of_mem_decimal h]

/-- Decimal digits are in lower case. -/
theorem map_toLower_decimal (n : Nat) : (decimal n).map Char.toLower = decimal n := by
  refine (List.map_congr_left fun c hc => ?_).trans (List.map_id _)
  obtain ⟨d, hd, rfl⟩ := exists_of_mem_toDigits (by decide) hc
  exact toLower_digitChar (by omega)

theorem isAlphanum_of_mem_hexByte {b : UInt8} {c : Char} (h : c ∈ hexByte b) :
    c.isAlphanum = true := by
  rcases List.mem_append.mp h with hpad | hdigits
  · rw [List.eq_of_mem_replicate hpad]
    rfl
  · obtain ⟨digit, hmem, rfl⟩ := List.mem_map.mp hdigits
    obtain ⟨d, hd, rfl⟩ := exists_of_mem_toDigits (by decide) hmem
    exact isAlphanum_toUpper_digitChar hd

theorem lower_hexadecimal (n : Nat) : (hexadecimal n).map Char.toLower = Nat.toDigits 16 n := by
  rw [hexadecimal, List.map_map]
  refine (List.map_congr_left fun c hc => ?_).trans (List.map_id _)
  obtain ⟨d, hd, rfl⟩ := exists_of_mem_toDigits (by decide) hc
  exact toLower_toUpper_digitChar hd

/-- The two digits of a byte, in lower case, are read as the byte. -/
theorem natural?_lower_hexByte (b : UInt8) :
    natural? 16 ((hexByte b).map Char.toLower) = some b.toNat := by
  rw [hexByte, padStart, List.map_append, List.map_replicate, lower_hexadecimal]
  rw [show '0'.toLower = '0' from rfl, natural?_zeros_append (by decide) _ Nat.toDigits_ne_nil]
  exact natural?_toDigits (by decide) (by decide) b.toNat

/-- Letters among the digits may be in either case. -/
theorem digit?_toUpper_digitChar {base d : Nat} (h : d < 16) :
    digit? base d.digitChar.toUpper = digit? base d.digitChar := by
  interval_cases d <;> rfl

theorem continueNatural_map {base : Nat} {f : Char → Char} {digits : List Char}
    (h : ∀ c ∈ digits, digit? base (f c) = digit? base c) (value : Nat) :
    continueNatural base value (digits.map f) = continueNatural base value digits := by
  induction digits generalizing value with
  | nil => rfl
  | cons c rest ih =>
    have hrest := ih fun d hd => h d (List.mem_cons_of_mem _ hd)
    simp only [continueNatural] at hrest
    simp only [continueNatural, List.map_cons, List.foldlM_cons, h c List.mem_cons_self, hrest]

theorem natural?_hexadecimal (n : Nat) : natural? 16 (hexadecimal n) = some n := by
  have hcase : ∀ c ∈ Nat.toDigits 16 n, digit? 16 c.toUpper = digit? 16 c := by
    intro c hc
    obtain ⟨d, hd, rfl⟩ := exists_of_mem_toDigits (by decide) hc
    exact digit?_toUpper_digitChar hd
  have hread : natural? 16 (Nat.toDigits 16 n) = some n :=
    natural?_toDigits (by decide) (by decide) n
  rw [natural?] at hread ⊢
  rw [hexadecimal, List.isEmpty_map, continueNatural_map hcase]
  exact hread

end Text
end TD4
