/-
Reading operands.

A number written in decimal is read as that number (`Value.read_decimal`,
`number_decimal`), a byte written in hexadecimal as that byte
(`number_hexByte`), and an identifier as a label (`Value.read_identifier`,
`Value.eq_of_read_label`).

An operand that is read consists of identifier characters, plus signs and, in
an offset, blanks.  Each reader has a lemma that says so (`mem_of_read`,
`mem_of_number`, `mem_of_offsetValue`).
-/
import TD4.Assembly.Operand
import TD4.Proofs.Text.Numeral
import TD4.Proofs.Text.Trim

namespace TD4
namespace Assembly

open Text

/-! ### Labels -/

theorem continuesIdentifier_of_starts {c : Char} (h : startsIdentifier c = true) :
    continuesIdentifier c = true := by
  simp only [startsIdentifier, continuesIdentifier, Char.isAlphanum, Bool.or_eq_true] at h ⊢
  rcases h with h | h
  · exact Or.inl (Or.inl h)
  · exact Or.inr h

theorem isDigit_of_starts {c : Char} (h : startsIdentifier c = true) : c.isDigit = false := by
  rw [startsIdentifier, Bool.or_eq_true, isAlpha_iff, beq_iff_eq] at h
  rcases h with h | rfl
  · rw [Bool.eq_false_iff, ne_eq, isDigit_iff]
    omega
  · rfl

theorem mem_of_isIdentifier {name : List Char} (h : isIdentifier name = true) :
    ∀ c ∈ name, continuesIdentifier c = true := by
  intro c hc
  rcases name with _ | ⟨first, rest⟩
  · cases h
  · obtain ⟨hfirst, hrest⟩ := Bool.and_eq_true_iff.mp h
    rcases List.mem_cons.mp hc with rfl | hmem
    · exact continuesIdentifier_of_starts hfirst
    · exact List.all_eq_true.mp hrest c hmem

theorem Value.read_identifier {name : List Char} (h : isIdentifier name = true) :
    Value.read name = .ok (.label name) := by
  rcases name with _ | ⟨c, rest⟩
  · cases h
  · have hstart : startsIdentifier c = true := (Bool.and_eq_true_iff.mp h).1
    have hdigit : c.isDigit = false := isDigit_of_starts hstart
    unfold Value.read
    split
    case h_1 heq =>
      cases heq
      cases hdigit
    case h_2 heq =>
      cases heq
      cases hdigit
    case h_3 heq =>
      cases heq
      rw [hdigit, if_neg Bool.false_ne_true, if_pos h]
    case h_4 heq => cases heq

theorem Value.ofNatural_ok {text : List Char} {n? : Option Nat} {v : Value}
    (h : Value.ofNatural text n? = .ok v) : ∃ n, n? = some n ∧ n < numberLimit ∧ v = .number n := by
  unfold Value.ofNatural at h
  split at h
  case h_1 n =>
    split at h
    case isTrue hlt =>
      cases h
      exact ⟨n, rfl, hlt, rfl⟩
    case isFalse => cases h
  case h_2 => cases h

/-- Only identifiers are read as labels. -/
theorem Value.eq_of_read_label {text name : List Char} (h : Value.read text = .ok (.label name)) :
    name = text ∧ isIdentifier text = true := by
  unfold Value.read at h
  split at h
  case h_1 => obtain ⟨_, _, _, heq⟩ := Value.ofNatural_ok h; cases heq
  case h_2 => obtain ⟨_, _, _, heq⟩ := Value.ofNatural_ok h; cases heq
  case h_3 =>
    split at h
    · obtain ⟨_, _, _, heq⟩ := Value.ofNatural_ok h
      cases heq
    · split at h
      case isTrue hident =>
        cases h
        exact ⟨rfl, hident⟩
      case isFalse => cases h
  case h_4 => cases h

/-! ### Numbers -/

theorem Value.read_decimal {n : Nat} (h : n < numberLimit) :
    Value.read (decimal n) = .ok (.number n) := by
  have hdigit : ∀ {c : Char}, c ∈ decimal n → c.isDigit = true := isDigit_of_mem_decimal
  unfold Value.read
  split
  case h_1 heq => cases hdigit (c := 'x') (by simp [heq])
  case h_2 heq => cases hdigit (c := 'b') (by simp [heq])
  case h_3 c rest _ _ heq =>
    have hc : c.isDigit = true := hdigit (by simp [heq])
    rw [if_pos hc, natural?_decimal, Value.ofNatural, if_pos h]
  case h_4 heq => exact absurd heq (decimal_ne_nil n)

theorem number_of_read {bound : UInt8} {n : Nat} {text : List Char}
    (hread : Value.read text = .ok (.number n)) (hbound : n ≤ bound.toNat) :
    number bound text = .ok (UInt8.ofNat n) := by
  simp only [number, hread, if_pos hbound]

theorem lt_numberLimit {bound : UInt8} {n : Nat} (h : n ≤ bound.toNat) : n < numberLimit := by
  have := bound.toNat_lt
  unfold numberLimit UInt32.size
  omega

theorem isDigit_of_read_number {text : List Char} {n : Nat}
    (h : Value.read text = .ok (.number n)) : ∃ c rest, text = c :: rest ∧ c.isDigit = true := by
  unfold Value.read at h
  split at h
  case h_1 digits => exact ⟨'0', 'x' :: digits, rfl, rfl⟩
  case h_2 digits => exact ⟨'0', 'b' :: digits, rfl, rfl⟩
  case h_3 c rest _ _ =>
    split at h
    case isTrue hdigit => exact ⟨c, rest, rfl, hdigit⟩
    case isFalse => split at h <;> cases h
  case h_4 => cases h

theorem read_number_of_number {bound b : UInt8} {text : List Char}
    (h : number bound text = .ok b) : ∃ n, Value.read text = .ok (.number n) := by
  rw [number] at h
  split at h
  case h_1 n hread => exact ⟨n, hread⟩
  case h_2 => cases h
  case h_3 => cases h

theorem number_decimal {bound : UInt8} {n : Nat} (h : n ≤ bound.toNat) :
    number bound (decimal n) = .ok (UInt8.ofNat n) :=
  number_of_read (Value.read_decimal (lt_numberLimit h)) h

/-- The digits of a byte after `0x`, in lower case, are read as the byte. -/
theorem number_hexByte (b : UInt8) :
    number 255 ('0' :: 'x' :: (hexByte b).map Char.toLower) = .ok b := by
  have hbound : b.toNat ≤ (255 : UInt8).toNat := Nat.le_of_lt_succ b.toNat_lt
  have hdigits : signless? 16 ((hexByte b).map Char.toLower) = some b.toNat :=
    signless?_of_natural? (natural?_lower_hexByte b)
  have hread : Value.read ('0' :: 'x' :: (hexByte b).map Char.toLower) = .ok (.number b.toNat) := by
    rw [Value.read, hdigits, Value.ofNatural, if_pos (lt_numberLimit hbound)]
  rw [number_of_read hread hbound, UInt8.ofNat_toNat]

/-! ### Offsets -/

theorem offsetOf?_register (register : Char) : offsetOf? register [register] = some none := by
  simp [offsetOf?, trimStart]

/-- Blanks may stand on both sides of the plus sign. -/
theorem offsetOf?_blanks_plus (register : Char) {before after offset : List Char}
    (hbefore : ∀ c ∈ before, isBlank c = true) (hafter : ∀ c ∈ after, isBlank c = true)
    (h : trim offset = offset) :
    offsetOf? register (register :: (before ++ '+' :: after) ++ offset) = some (some offset) := by
  have hplus : trimStart (before ++ '+' :: after ++ offset) = '+' :: (after ++ offset) := by
    rw [List.append_assoc, trimStart, List.dropWhile_append_of_pos hbefore]
    exact trimStart_of_head rfl (after ++ offset)
  rw [List.cons_append, offsetOf?, if_pos rfl, hplus]
  simp only [trim_blanks_append hafter, h]

theorem offsetOf?_plus (register : Char) {offset : List Char} (h : trim offset = offset) :
    offsetOf? register (register :: '+' :: offset) = some (some offset) :=
  @offsetOf?_blanks_plus register [] [] offset nofun nofun h

theorem offsetOf?_of_head_ne {register c : Char} (h : c ≠ register) (rest : List Char) :
    offsetOf? register (c :: rest) = none := by
  rw [offsetOf?, if_neg h]

/-- A number is no register, with or without an offset. -/
theorem offsetOf?_of_number {register : Char} {bound b : UInt8} {text : List Char}
    (hregister : register.isDigit = false) (h : number bound text = .ok b) :
    offsetOf? register text = none := by
  obtain ⟨n, hread⟩ := read_number_of_number h
  obtain ⟨c, rest, rfl, hdigit⟩ := isDigit_of_read_number hread
  refine offsetOf?_of_head_ne ?_ rest
  rintro rfl
  rw [hregister] at hdigit
  cases hdigit

/-- A register name with what follows it: blanks, and an offset after a plus sign. -/
theorem eq_of_offsetOf? {register : Char} {text : List Char} {offset : Option (List Char)}
    (h : offsetOf? register text = some offset) :
    ∃ rest, text = register :: rest ∧
      (trimStart rest = [] ∧ offset = none ∨
        ∃ tail, trimStart rest = '+' :: tail ∧ offset = some (trim tail)) := by
  unfold offsetOf? at h
  split at h
  case h_1 => cases h
  case h_2 c rest =>
    split at h
    case isTrue heq =>
      subst heq
      refine ⟨rest, rfl, ?_⟩
      split at h
      case h_1 hnil =>
        cases h
        exact Or.inl ⟨hnil, rfl⟩
      case h_2 tail hplus =>
        cases h
        exact Or.inr ⟨tail, hplus, rfl⟩
      case h_3 => cases h
    case isFalse => cases h

/-! ### The characters of an operand -/

/-- May a character stand in a number or a label that is read? -/
def isValueChar (c : Char) : Bool := continuesIdentifier c || c == '+'

theorem isValueChar_of_isAlphanum {c : Char} (h : c.isAlphanum = true) : isValueChar c = true := by
  simp [isValueChar, continuesIdentifier, h]

theorem isAlphanum_or_of_isValueChar {c : Char} (h : isValueChar c = true) :
    c.isAlphanum = true ∨ c = '_' ∨ c = '+' := by
  simpa [isValueChar, continuesIdentifier, or_assoc] using h

theorem isBlank_of_isValueChar {c : Char} (h : isValueChar c = true) : isBlank c = false := by
  rcases isAlphanum_or_of_isValueChar h with halnum | rfl | rfl
  · exact isBlank_of_isAlphanum halnum
  · rfl
  · rfl

theorem ascii_of_isValueChar {c : Char} (h : isValueChar c = true) : c.val < 0x80 := by
  rcases isAlphanum_or_of_isValueChar h with halnum | rfl | rfl
  · exact ascii_of_isAlphanum halnum
  · decide
  · decide

theorem isValueChar_toLower {c : Char} (h : isValueChar c = true) :
    isValueChar c.toLower = true := by
  unfold Char.toLower
  split
  case isTrue hupper =>
    -- a capital letter becomes a small one
    have hrange : 65 ≤ c.toNat ∧ c.toNat ≤ 90 := by
      simpa [UInt32.le_iff_toNat_le] using hupper
    refine isValueChar_of_isAlphanum (isAlphanum_iff.mpr (Or.inr (Or.inr ?_)))
    have hsmall : (c.val + ('a'.val - 'A'.val)).toNat = c.toNat + 32 := by
      rw [UInt32.toNat_add]
      show (c.toNat + 32) % 2 ^ 32 = c.toNat + 32
      omega
    show 97 ≤ (c.val + ('a'.val - 'A'.val)).toNat ∧ (c.val + ('a'.val - 'A'.val)).toNat ≤ 122
    omega
  case isFalse => exact h

theorem mem_of_read {text : List Char} {v : Value} (h : Value.read text = .ok v) :
    ∀ c ∈ text, isValueChar c = true := by
  -- after the two characters of a base there are digits and perhaps a plus sign
  have hbase : ∀ {base : Nat} {marker : Char} {digits : List Char} {n : Nat},
      marker.isAlphanum = true → signless? base digits = some n →
        ∀ c ∈ '0' :: marker :: digits, isValueChar c = true := by
    intro base marker digits n hmarker hdigits c hc
    rcases List.mem_cons.mp hc with rfl | hc
    · rfl
    · rcases List.mem_cons.mp hc with rfl | hc
      · exact isValueChar_of_isAlphanum hmarker
      · rcases mem_of_signless? hdigits c hc with halpha | rfl
        · exact isValueChar_of_isAlphanum halpha
        · rfl
  unfold Value.read at h
  split at h
  case h_1 =>
    obtain ⟨n, hn, _, _⟩ := Value.ofNatural_ok h
    exact hbase rfl hn
  case h_2 =>
    obtain ⟨n, hn, _, _⟩ := Value.ofNatural_ok h
    exact hbase rfl hn
  case h_3 =>
    split at h
    · obtain ⟨n, hn, _, _⟩ := Value.ofNatural_ok h
      intro c hc
      obtain ⟨d, hd⟩ := digit?_of_natural? hn c hc
      exact isValueChar_of_isAlphanum (isAlphanum_of_digit? hd)
    · split at h
      case isTrue hident =>
        intro c hc
        simp [isValueChar, mem_of_isIdentifier hident c hc]
      case isFalse => cases h
  case h_4 => cases h

theorem mem_of_number {bound b : UInt8} {text : List Char} (h : number bound text = .ok b) :
    ∀ c ∈ text, isValueChar c = true := by
  rw [number] at h
  split at h
  case h_1 n hread => exact mem_of_read hread
  case h_2 => cases h
  case h_3 => cases h

/-- An operand that is read as a register with an offset has nothing but the
register, a plus sign, the characters of a number, and blanks. -/
theorem mem_of_offsetValue {register : Char} {text : List Char} {offset : Option (List Char)}
    {b : UInt8} (hregister : isValueChar register = true)
    (hoffset : offsetOf? register text = some offset) (hvalue : offsetValue offset = .ok b) :
    ∀ c ∈ text, isBlank c = true ∨ isValueChar c = true := by
  intro c hc
  by_cases hblank : isBlank c = true
  · exact Or.inl hblank
  have hsolid : isBlank c = false := Bool.eq_false_iff.mpr hblank
  right
  obtain ⟨rest, rfl, hrest⟩ := eq_of_offsetOf? hoffset
  rcases List.mem_cons.mp hc with rfl | hmem
  · exact hregister
  · rw [← mem_trimStart_iff hsolid] at hmem
    rcases hrest with ⟨hnil, rfl⟩ | ⟨tail, hplus, rfl⟩
    · rw [hnil] at hmem
      exact absurd hmem List.not_mem_nil
    · rw [hplus] at hmem
      rcases List.mem_cons.mp hmem with rfl | htail
      · rfl
      · exact mem_of_number hvalue c ((mem_trim_iff hsolid).mpr htail)

end Assembly
end TD4
