/-
Numbers in program texts.

A number is written in decimal, in hexadecimal behind `0x` or in binary behind
`0b` (`NumberText`).  Besides these the reader takes a plus sign behind the mark
of a base (`SignedText`), though it takes none in front of a decimal number; and
it takes nothing else (`read_number_iff`).

So a byte that is given as it is may be written in just these ways
(`assemble_data_iff`), and in all of them the byte is the number.
-/
import TD4.Proofs.Assembly.Grammar
import TD4.Proofs.Text.Positional

namespace TD4
namespace Assembly

open Text

/-- The mark of a base, behind a zero. -/
inductive BaseMark : Char → Nat → Prop
  | hexadecimal : BaseMark 'x' 16
  | binary : BaseMark 'b' 2

/-- A number in one of the three bases, with its value. -/
inductive NumberText : List Char → Nat → Prop
  | decimal {digits : List Char} {n : Nat} (hdigits : Positional 10 digits n) :
      NumberText digits n
  | marked {mark : Char} {base : Nat} {digits : List Char} {n : Nat} (hmark : BaseMark mark base)
      (hdigits : Positional base digits n) : NumberText ('0' :: mark :: digits) n

/-- A number with a plus sign behind the mark of its base. -/
inductive SignedText : List Char → Nat → Prop
  | marked {mark : Char} {base : Nat} {digits : List Char} {n : Nat} (hmark : BaseMark mark base)
      (hdigits : Positional base digits n) : SignedText ('0' :: mark :: '+' :: digits) n

/-- A text that is read as a number, however large, with its value. -/
def HasValue (text : List Char) (n : Nat) : Prop := NumberText text n ∨ SignedText text n

/-! ### Reading a number -/

section Reading

variable {mark : Char} {base n : Nat} {text digits : List Char}

theorem BaseMark.le (h : BaseMark mark base) : base ≤ 16 := by
  cases h <;> decide

theorem Value.read_marked (h : BaseMark mark base) (digits : List Char) :
    Value.read ('0' :: mark :: digits)
      = Value.ofNatural ('0' :: mark :: digits) (signless? base digits) := by
  cases h <;> rfl

/-- A number is read if its digits are, and if it is not beyond 32 bits. -/
theorem Value.ofNatural_number_iff {n? : Option Nat} :
    Value.ofNatural text n? = .ok (.number n) ↔ n? = some n ∧ n < numberLimit := by
  constructor
  · intro h
    obtain ⟨m, hm, hlimit, heq⟩ := Value.ofNatural_ok h
    cases heq
    exact ⟨hm, hlimit⟩
  · rintro ⟨rfl, hlimit⟩
    exact if_pos hlimit

theorem Value.read_positional (h : Positional 10 text n) :
    Value.read text = Value.ofNatural text (some n) := by
  have hnatural : natural? 10 text = some n := (natural?_eq_some_iff (by decide)).mpr h
  have hdigit := h.isDigit
  unfold Value.read
  split
  case h_1 => cases hdigit 'x' (by simp)
  case h_2 => cases hdigit 'b' (by simp)
  case h_3 c rest _ _ => rw [if_pos (hdigit c List.mem_cons_self), hnatural]
  case h_4 => cases hnatural

theorem numberText_or_of_marked (hmark : BaseMark mark base)
    (h : Value.read ('0' :: mark :: digits) = .ok (.number n)) :
    (NumberText ('0' :: mark :: digits) n ∨ SignedText ('0' :: mark :: digits) n) ∧
      n < numberLimit := by
  rw [Value.read_marked hmark, Value.ofNatural_number_iff, signless?_eq_some_iff hmark.le] at h
  obtain ⟨hdigits | ⟨rest, rfl, hdigits⟩, hlimit⟩ := h
  · exact ⟨Or.inl (.marked hmark hdigits), hlimit⟩
  · exact ⟨Or.inr (.marked hmark hdigits), hlimit⟩

/-- What is read as a number. -/
theorem Value.read_number_iff : Value.read text = .ok (.number n) ↔
    (NumberText text n ∨ SignedText text n) ∧ n < numberLimit := by
  constructor
  · intro h
    have hread := h
    unfold Value.read at h
    split at h
    case h_1 => exact numberText_or_of_marked .hexadecimal hread
    case h_2 => exact numberText_or_of_marked .binary hread
    case h_3 =>
      split at h
      case isTrue =>
        obtain ⟨hdigits, hlimit⟩ := Value.ofNatural_number_iff.mp h
        exact ⟨Or.inl (.decimal ((natural?_eq_some_iff (by decide)).mp hdigits)), hlimit⟩
      case isFalse => split at h <;> cases h
    case h_4 => cases h
  · rintro ⟨hnumber | hsigned, hlimit⟩
    · cases hnumber with
      | decimal hdigits =>
        rw [Value.read_positional hdigits]
        exact Value.ofNatural_number_iff.mpr ⟨rfl, hlimit⟩
      | marked hmark hdigits =>
        rw [Value.read_marked hmark, Value.ofNatural_number_iff, signless?_eq_some_iff hmark.le]
        exact ⟨Or.inl hdigits, hlimit⟩
    · cases hsigned with
      | marked hmark hdigits =>
        rw [Value.read_marked hmark, Value.ofNatural_number_iff, signless?_eq_some_iff hmark.le]
        exact ⟨Or.inr ⟨_, rfl, hdigits⟩, hlimit⟩

/-- The digits of a number are read, however large it is. -/
theorem HasValue.read_eq (h : HasValue text n) : Value.read text = Value.ofNatural text (some n) := by
  rcases h with hnumber | hsigned
  · cases hnumber with
    | decimal hdigits => exact Value.read_positional hdigits
    | marked hmark hdigits =>
      rw [Value.read_marked hmark, (signless?_eq_some_iff hmark.le).mpr (Or.inl hdigits)]
  · cases hsigned with
    | marked hmark hdigits =>
      rw [Value.read_marked hmark,
        (signless?_eq_some_iff hmark.le).mpr (Or.inr ⟨_, rfl, hdigits⟩)]

/-- The numbers up to a bound that a byte can hold are below the limit of the
reader. -/
theorem numeral_iff {bound : UInt8} :
    Numeral bound.toNat n text ↔ (NumberText text n ∨ SignedText text n) ∧ n ≤ bound.toNat := by
  constructor
  · intro h
    exact ⟨(Value.read_number_iff.mp h.read).1, h.le⟩
  · rintro ⟨htext, hle⟩
    exact ⟨Value.read_number_iff.mpr ⟨htext, lt_numberLimit hle⟩, hle⟩

end Reading

/-! ### A byte that is given as it is -/

/-- One operand is the text between the blanks. -/
theorem eq_trim_of_operands {text arg : List Char} (h : operands text = [arg]) :
    arg = trim text := by
  rw [operands] at h
  split at h
  case isTrue => cases h
  case isFalse =>
    obtain ⟨piece, hpiece, rfl⟩ := List.map_eq_singleton_iff.mp h
    have htext : [','].intercalate (text.splitOn ',') = text := List.intercalate_splitOn ','
    rw [hpiece, List.intercalate_singleton] at htext
    rw [htext]

theorem operands_of_isWord {word : List Char} (h : IsWord word) : operands word = [word] :=
  operands_writeOperands (fun _ hmem => absurd hmem List.not_mem_nil) h

theorem parts_data (text : List Char) : parts (trim ("db ".toList ++ text))
    = (Mnemonic.text .data, operands (lowercase (trim text))) := by
  have hcut : lowercase ("db".toList ++ ' ' :: text)
      = lowercase "db".toList ++ ' ' :: lowercase text := lowercase_append_blank rfl
  have hlower : lowercase ("db ".toList ++ text)
      = [] ++ Mnemonic.text .data ++ [' '] ++ lowercase text := hcut
  have hword : ∀ c ∈ Mnemonic.text .data, isBlank c = false := fun _ => Mnemonic.isBlank_of_mem_text
  rw [parts_trim, hlower, cut_trim_word (by decide) (by decide) hword (by decide) (by decide),
    trim_lowercase]

theorem read_data_iff {text : List Char} {byte : UInt8} :
    Statement.read (trim ("db ".toList ++ text)) = .ok ⟨byte, none⟩ ↔
      number 255 (lowercase (trim text)) = .ok byte := by
  have htrim : trim (lowercase (trim text)) = lowercase (trim text) := by
    rw [trim_lowercase, trim_trim]
  constructor
  · intro h
    obtain ⟨m, args, hparts, hmeans⟩ := Statement.parts_of_read h
    obtain ⟨hmnemonic, hargs⟩ := Prod.mk.inj ((parts_data text).symm.trans hparts)
    have hm : m = .data := by
      revert hmnemonic
      cases m <;> decide
    subst hm
    cases hmeans with
    | data hvalue =>
      rw [eq_trim_of_operands hargs, htrim] at hvalue
      exact hvalue
    | number hform => cases hform
    | offset hform => cases hform
  · intro h
    have hword : IsWord (lowercase (trim text)) := by
      obtain ⟨n, hnumeral, -⟩ := exists_numeral_of_number h
      exact hnumeral.isWord
    refine Statement.read_of_parts (m := .data) ?_ (.data h)
    rw [parts_data, operands_of_isWord hword]

/-- **How a byte may be written.**  The text behind the mnemonic is a number in one
of the three bases and fits in a byte; behind the mark of a base, a plus sign may
stand in front of the digits. -/
theorem assemble_data_iff {text : List Char} (hcomment : ';' ∉ text) (hlabel : ':' ∉ text)
    (hbreak : '\n' ∉ text) (bytes : List UInt8) :
    assemble ("db ".toList ++ text) = .ok bytes ↔
      ∃ n, (NumberText (lowercase (trim text)) n ∨ SignedText (lowercase (trim text)) n) ∧
        n ≤ 255 ∧ bytes = [UInt8.ofNat n] := by
  have hsolid : ∃ c ∈ "db ".toList ++ text, isBlank c = false := ⟨'d', by simp, rfl⟩
  rw [assemble_ok_iff_read hsolid (by simpa using hbreak) (by simpa using hcomment)
    (by simpa using hlabel)]
  constructor
  · rintro ⟨byte, hread, rfl⟩
    obtain ⟨n, hnumeral, rfl⟩ := exists_numeral_of_number (read_data_iff.mp hread)
    obtain ⟨htext, hle⟩ := numeral_iff.mp hnumeral
    exact ⟨n, htext, hle, rfl⟩
  · rintro ⟨n, htext, hle, rfl⟩
    have hnumeral : Numeral (255 : UInt8).toNat n (lowercase (trim text)) :=
      numeral_iff.mpr ⟨htext, hle⟩
    exact ⟨_, read_data_iff.mpr (hnumeral.number 255), rfl⟩

/-- Blanks, capitals and zeros in front make no difference. -/
theorem assemble_data_capitals : assemble "db  0X00fF".toList = .ok [255] := by
  have hdigits : Positional 16 "00ff".toList 255 :=
    (natural?_eq_some_iff (by decide)).mp (by decide)
  have hplain : ';' ∉ " 0X00fF".toList ∧ ':' ∉ " 0X00fF".toList ∧ '\n' ∉ " 0X00fF".toList := by
    decide
  exact (assemble_data_iff hplain.1 hplain.2.1 hplain.2.2 [255]).mpr
    ⟨255, Or.inl (.marked .hexadecimal hdigits), by decide, by decide⟩

/-- A sign behind the mark of a base is read over, though such a text is no number in
any of the three bases. -/
theorem signed_data_assembled :
    assemble "db 0x+5".toList = .ok [5] ∧ ∀ n, ¬ NumberText "0x+5".toList n := by
  refine ⟨by decide, ?_⟩
  intro n h
  have hplus : ∀ base ≤ 16, digit? base '+' = none := by decide
  cases h with
  | decimal hdigits =>
    have hnone : natural? 10 "0x+5".toList = none := by decide
    cases hnone.symm.trans ((natural?_eq_some_iff (by decide)).mpr hdigits)
  | marked hmark hdigits =>
    have hsome := (natural?_eq_some_iff hmark.le).mpr hdigits
    obtain ⟨d, hd⟩ := digit?_of_natural? hsome '+' List.mem_cons_self
    cases (hplus _ hmark.le).symm.trans hd

end Assembly
end TD4
