/-
Which statements are refused, and for what.

What is wrong with a statement is told by its parts and by the texts of its operands,
and not by the readers:

* `NumberFault`: a text stands where a number up to a bound belongs, and is none, or is
  too large;
* `OperandFault`: the operands do not fit the mnemonic, or one of them is at fault;
* `StatementFault`: a text begins with no mnemonic, or its operands are at fault.

The reader of numbers refuses just the texts with a `NumberFault`, and says that this is the
problem (`number_eq_error_iff`).  So does the reader of operands
(`Statement.ofOperands_eq_error_iff`), and so does the reader of statements
(`Statement.read_eq_error_iff`).
-/
import TD4.Proofs.Assembly.Numbers

namespace TD4
namespace Assembly

open Text

variable {m : Mnemonic} {front args : List (List Char)} {op : Operation} {register : Char}
  {text : List Char} {problem : Problem} {offset : Option (List Char)} {n : Nat}

/-! ### What can be wrong with an operand -/

/-- A text begins with a digit, as numbers do. -/
def Numeric (text : List Char) : Prop := ∃ c rest, text = c :: rest ∧ c.isDigit = true

/-- What is wrong with a text where a number up to a bound belongs. -/
inductive NumberFault (bound : Nat) (text : List Char) : Problem → Prop
  | outOfRange {n : Nat} (hvalue : HasValue text n) (hlarge : bound < n) (hlimit : n < 2 ^ 32) :
      NumberFault bound text (.outOfRange n)
  | beyond {n : Nat} (hvalue : HasValue text n) (hbeyond : 2 ^ 32 ≤ n) :
      NumberFault bound text (.invalidNumber text)
  | malformed (hnumeric : Numeric text) (hnone : ∀ n, ¬ HasValue text n) :
      NumberFault bound text (.invalidNumber text)
  | label (hname : isIdentifier text = true) : NumberFault bound text (.labelForNumber text)
  | neither (hnumeric : ¬ Numeric text) (hname : isIdentifier text = false) :
      NumberFault bound text (.invalidOperand text)

/-- A register, alone or with a plus sign and a text behind it.  Blanks may stand around
the plus sign. -/
inductive WithRegister (register : Char) : List Char → Option (List Char) → Prop
  | alone {blanks : List Char} (hblanks : Blanks blanks) :
      WithRegister register (register :: blanks) none
  | plus {before after : List Char} (hbefore : Blanks before) :
      WithRegister register (register :: (before ++ '+' :: after)) (some (trim after))

/-- The operands fit a mnemonic in their number and in the register in front. -/
inductive Fits : Mnemonic → List (List Char) → Prop
  | nop : Fits .nop []
  | number {m : Mnemonic} {front : List (List Char)} {op : Operation}
      (hform : NumberForm m front op) (last : List Char) : Fits m (front ++ [last])
  | input (last : List Char) : Fits .input [last]

/-- What is wrong with the operands of a mnemonic. -/
inductive OperandFault : Mnemonic → List (List Char) → Problem → Prop
  | dataCount {args : List (List Char)} (hcount : args.length ≠ 1) :
      OperandFault .data args .dataNeedsOneValue
  | data {text : List Char} {problem : Problem} (hfault : NumberFault 255 text problem) :
      OperandFault .data [text] problem
  /-- A number is at fault where no register begins the operand; a jump takes a label in
  the place of its number. -/
  | number {m : Mnemonic} {front : List (List Char)} {op : Operation} {text : List Char}
      {problem : Problem} (hform : NumberForm m front op)
      (hregister : ∀ register op, OffsetForm m front register op →
        ∀ offset, ¬ WithRegister register text offset)
      (hlabel : ∀ op, JumpForm m op → isIdentifier text = false)
      (hfault : NumberFault 15 text problem) : OperandFault m (front ++ [text]) problem
  /-- The text behind the plus sign is at fault. -/
  | offset {m : Mnemonic} {front : List (List Char)} {register : Char} {op : Operation}
      {text behind : List Char} {problem : Problem} (hform : OffsetForm m front register op)
      (htext : WithRegister register text (some behind)) (hfault : NumberFault 15 behind problem) :
      OperandFault m (front ++ [text]) problem
  | input {text : List Char} (hregister : ∀ register op, OffsetForm .input [] register op →
        ∀ offset, ¬ WithRegister register text offset) :
      OperandFault .input [text] .inputNeedsRegister
  | unfit {m : Mnemonic} {args : List (List Char)} (hdata : m ≠ .data) (hfits : ¬ Fits m args) :
      OperandFault m args (.badOperands m)

/-- What is wrong with a statement. -/
inductive StatementFault (body : List Char) : Problem → Prop
  | unknownMnemonic {word : List Char} {args : List (List Char)}
      (hparts : parts body = (word, args)) (hword : ∀ m : Mnemonic, m.text ≠ word) :
      StatementFault body (.unknownMnemonic word)
  | operands {m : Mnemonic} {args : List (List Char)} {problem : Problem}
      (hparts : parts body = (m.text, args)) (hfault : OperandFault m args problem) :
      StatementFault body problem

/-- A statement is never blamed for the length of the program. -/
theorem StatementFault.ne_programTooLarge {body : List Char} :
    ¬ StatementFault body .programTooLarge := by
  intro h
  cases h with
  | operands _ hfault =>
    cases hfault with
    | data hfault => cases hfault
    | number _ _ _ hfault => cases hfault
    | offset _ _ hfault => cases hfault

/-! ### Numbers that are refused -/

theorem HasValue.numeric (h : HasValue text n) : Numeric text := by
  rcases h with hnumber | hsigned
  · cases hnumber with
    | decimal hdigits =>
      obtain ⟨c, rest, rfl⟩ := List.exists_cons_of_ne_nil hdigits.ne_nil
      exact ⟨c, rest, rfl, hdigits.isDigit c List.mem_cons_self⟩
    | marked => exact ⟨_, _, rfl, rfl⟩
  · cases hsigned with
    | marked => exact ⟨_, _, rfl, rfl⟩

/-- No identifier begins as a number. -/
theorem Numeric.isIdentifier_eq_false (h : Numeric text) : isIdentifier text = false := by
  obtain ⟨c, rest, rfl, hdigit⟩ := h
  rw [Bool.eq_false_iff]
  intro hname
  have hstart : startsIdentifier c = true := (Bool.and_eq_true_iff.mp hname).1
  rw [isDigit_of_starts hstart] at hdigit
  cases hdigit

/-- Nor does a register. -/
theorem Numeric.not_withRegister (h : Numeric text) (hform : OffsetForm m front register op) :
    ¬ WithRegister register text offset := by
  obtain ⟨c, rest, rfl, hdigit⟩ := h
  intro htext
  obtain rfl : c = register := by
    cases htext <;> rfl
  rcases hform.register_eq with rfl | rfl <;> cases hdigit

theorem Value.problem_of_ofNatural {n? : Option Nat} (h : Value.ofNatural text n? = .error problem) :
    problem = .invalidNumber text := by
  unfold Value.ofNatural at h
  split at h
  case h_1 =>
    split at h
    case isTrue => cases h
    case isFalse =>
      cases h
      rfl
  case h_2 =>
    cases h
    rfl

/-- A text that is not read is blamed as a number if it begins as one. -/
theorem Value.problem_of_read (h : Value.read text = .error problem) :
    Numeric text ∧ problem = .invalidNumber text ∨
      ¬ Numeric text ∧ problem = .invalidOperand text := by
  unfold Value.read at h
  split at h
  case h_1 digits => exact Or.inl ⟨⟨'0', 'x' :: digits, rfl, rfl⟩, Value.problem_of_ofNatural h⟩
  case h_2 digits => exact Or.inl ⟨⟨'0', 'b' :: digits, rfl, rfl⟩, Value.problem_of_ofNatural h⟩
  case h_3 c rest _ _ =>
    split at h
    case isTrue hdigit => exact Or.inl ⟨⟨c, rest, rfl, hdigit⟩, Value.problem_of_ofNatural h⟩
    case isFalse hdigit =>
      split at h
      case isTrue => cases h
      case isFalse =>
        cases h
        refine Or.inr ⟨?_, rfl⟩
        rintro ⟨_, _, heq, hc⟩
        cases heq
        exact hdigit hc
  case h_4 =>
    cases h
    refine Or.inr ⟨?_, rfl⟩
    rintro ⟨_, _, heq, -⟩
    cases heq

/-- A text without a value that begins as a number is not read. -/
theorem Value.read_of_malformed (hnumeric : Numeric text) (hnone : ∀ n, ¬ HasValue text n) :
    Value.read text = .error (.invalidNumber text) := by
  rcases hread : Value.read text with problem | (n | name)
  · rcases Value.problem_of_read hread with ⟨-, rfl⟩ | ⟨hnot, -⟩
    · rfl
    · exact absurd hnumeric hnot
  · exact absurd (Value.read_number_iff.mp hread).1 (hnone n)
  · have hname := (Value.eq_of_read_label hread).2
    rw [hnumeric.isIdentifier_eq_false] at hname
    cases hname

/-- Neither is a text that is no identifier and begins as no number. -/
theorem Value.read_of_neither (hnumeric : ¬ Numeric text) (hname : isIdentifier text = false) :
    Value.read text = .error (.invalidOperand text) := by
  rcases hread : Value.read text with problem | (n | name)
  · rcases Value.problem_of_read hread with ⟨hyes, -⟩ | ⟨-, rfl⟩
    · exact absurd hyes hnumeric
    · rfl
  · exact absurd (isDigit_of_read_number hread) hnumeric
  · rw [(Value.eq_of_read_label hread).2] at hname
    cases hname

/-- **Which numbers are refused.** -/
theorem number_eq_error_iff {bound : UInt8} :
    number bound text = .error problem ↔ NumberFault bound.toNat text problem := by
  constructor
  · intro h
    rw [number] at h
    split at h
    case h_1 n hread =>
      obtain ⟨hvalue, hlimit⟩ := Value.read_number_iff.mp hread
      split at h
      case isTrue => cases h
      case isFalse hlarge =>
        cases h
        exact .outOfRange hvalue (Nat.not_le.mp hlarge) hlimit
    case h_2 hread =>
      cases h
      exact .label (Value.eq_of_read_label hread).2
    case h_3 hread =>
      cases h
      rcases Value.problem_of_read hread with ⟨hnumeric, rfl⟩ | ⟨hnumeric, rfl⟩
      · by_cases hvalue : ∃ n, HasValue text n
        · -- the digits are read, so the number is too large for the reader
          obtain ⟨n, hvalue⟩ := hvalue
          refine .beyond hvalue (Nat.not_lt.mp fun hlimit => ?_)
          rw [Value.read_number_iff.mpr ⟨hvalue, hlimit⟩] at hread
          cases hread
        · exact .malformed hnumeric (not_exists.mp hvalue)
      · refine .neither hnumeric (Bool.eq_false_iff.mpr fun hname => ?_)
        rw [Value.read_identifier hname] at hread
        cases hread
  · intro h
    cases h with
    | outOfRange hvalue hlarge hlimit =>
      simp only [number, Value.read_number_iff.mpr ⟨hvalue, hlimit⟩, if_neg (Nat.not_le.mpr hlarge)]
    | beyond hvalue hbeyond =>
      -- the digits are read, but their value has no place in 32 bits
      have hlimit : ¬ _ < numberLimit := Nat.not_lt.mpr hbeyond
      have hread := hvalue.read_eq
      rw [Value.ofNatural, if_neg hlimit] at hread
      simp only [number, hread]
    | malformed hnumeric hnone => simp only [number, Value.read_of_malformed hnumeric hnone]
    | label hname => simp only [number, Value.read_identifier hname]
    | neither hnumeric hname => simp only [number, Value.read_of_neither hnumeric hname]

/-! ### Operands that are refused -/

theorem offsetOf?_eq_some_iff : offsetOf? register text = some offset ↔
    WithRegister register text offset := by
  constructor
  · intro h
    obtain ⟨rest, rfl, ⟨hblank, rfl⟩ | ⟨tail, hplus, rfl⟩⟩ := eq_of_offsetOf? h
    · exact .alone (List.dropWhile_eq_nil_iff.mp hblank)
    · have hrest : rest = rest.takeWhile isBlank ++ '+' :: tail := by
        rw [← hplus]
        exact List.takeWhile_append_dropWhile.symm
      rw [hrest]
      exact .plus fun c hc => List.mem_takeWhile_imp hc
  · intro h
    cases h with
    | alone hblanks =>
      have hnone : trimStart _ = [] := List.dropWhile_eq_nil_iff.mpr hblanks
      rw [offsetOf?, if_pos rfl, hnone]
    | @plus before after hbefore =>
      have hplus : trimStart (before ++ '+' :: after) = '+' :: after := by
        rw [trimStart, List.dropWhile_append_of_pos hbefore]
        exact trimStart_of_head rfl after
      rw [offsetOf?, if_pos rfl, hplus]
      rfl

theorem offsetOf?_eq_none_iff : offsetOf? register text = none ↔
    ∀ offset, ¬ WithRegister register text offset := by
  rw [Option.eq_none_iff_forall_ne_some]
  exact forall_congr' fun offset => not_congr offsetOf?_eq_some_iff

namespace Statement

theorem ofImmediate_eq_error_iff {imm? : Except Problem UInt8} :
    ofImmediate op imm? = .error problem ↔ imm? = .error problem := by
  cases imm? <;> simp [ofImmediate]

theorem withNumber_eq_error_iff : withNumber op text = .error problem ↔
    NumberFault 15 text problem :=
  ofImmediate_eq_error_iff.trans number_eq_error_iff

theorem withOffset_eq_error_iff : withOffset op offset = .error problem ↔
    ∃ behind, offset = some behind ∧ NumberFault 15 behind problem := by
  rw [withOffset, ofImmediate_eq_error_iff]
  rcases offset with _ | behind
  · simp [offsetValue]
  · have hnumber : number 15 behind = .error problem ↔ NumberFault 15 behind problem :=
      number_eq_error_iff
    simpa [offsetValue] using hnumber

/-- A jump reads an operand that is no label as the other instructions do. -/
theorem jumpTo_of_not_isIdentifier (hname : isIdentifier text = false) (op : Operation) :
    jumpTo op text = withNumber op text := by
  rw [jumpTo]
  split
  case h_1 hread =>
    rw [(Value.eq_of_read_label hread).2] at hname
    cases hname
  case h_2 => rfl
  case h_3 hread => simp only [withNumber, number, hread, ofImmediate]

/-! What is read in the last operand, in the ways this can go. -/

theorem ofOperands_offset (hform : OffsetForm m front register op)
    (htext : WithRegister register text offset) :
    ofOperands m (front ++ [text]) = withOffset op offset := by
  have hoffset := offsetOf?_eq_some_iff.mpr htext
  cases hform with
  | movAB => simp [ofOperands, hoffset]
  | movBA => simp [ofOperands, hoffset]
  | inA => simp [ofOperands, hoffset]
  | inB =>
    -- an operand that begins with `b` does not begin with `a`
    obtain ⟨rest, rfl, -⟩ := eq_of_offsetOf? hoffset
    have hnot : offsetOf? 'a' ('b' :: rest) = none := offsetOf?_of_head_ne (by decide) rest
    simp [ofOperands, hnot, hoffset]
  | outB => simp [ofOperands, hoffset]

theorem ofOperands_number (hform : NumberForm m front op)
    (hregister : ∀ register op, OffsetForm m front register op →
      ∀ offset, ¬ WithRegister register text offset)
    (hlabel : ∀ op, JumpForm m op → isIdentifier text = false) :
    ofOperands m (front ++ [text]) = withNumber op text := by
  have hnone : ∀ {register op}, OffsetForm m front register op → offsetOf? register text = none :=
    fun hoffset => offsetOf?_eq_none_iff.mpr (hregister _ _ hoffset)
  cases hform with
  | addA => rfl
  | addB => rfl
  | movA => simp [ofOperands, hnone .movAB]
  | movB => simp [ofOperands, hnone .movBA]
  | out => simp [ofOperands, hnone .outB]
  | jnc => exact jumpTo_of_not_isIdentifier (hlabel _ .jnc) .jnc
  | jmp => exact jumpTo_of_not_isIdentifier (hlabel _ .jmp) .jmp

theorem ofOperands_input (hregister : ∀ register op, OffsetForm .input [] register op →
    ∀ offset, ¬ WithRegister register text offset) :
    ofOperands .input [text] = .error .inputNeedsRegister := by
  have hnone : ∀ {register op}, OffsetForm .input [] register op →
      offsetOf? register text = none :=
    fun hoffset => offsetOf?_eq_none_iff.mpr (hregister _ _ hoffset)
  simp [ofOperands, hnone .inA, hnone .inB]

/-- Of two operands the first one is a register. -/
theorem fits_of_register {first last : List Char} (hm : m = .add ∨ m = .mov)
    (hfirst : first = ['a'] ∨ first = ['b']) : Fits m [first, last] := by
  rcases hm with rfl | rfl
  · rcases hfirst with rfl | rfl
    · exact .number .addA last
    · exact .number .addB last
  · rcases hfirst with rfl | rfl
    · exact .number .movA last
    · exact .number .movB last

theorem ofOperands_of_not_fits (hdata : m ≠ .data) (hfits : ¬ Fits m args) :
    ofOperands m args = .error (.badOperands m) := by
  unfold ofOperands
  -- the operands that the reader looks at fit, but for the registers of the first of two
  split
  case h_1 => exact absurd rfl hdata
  case h_2 => exact absurd rfl hdata
  case h_3 => exact absurd .nop hfits
  case h_4 first last =>
    obtain ⟨ha, hb⟩ := not_or.mp (mt (fits_of_register (Or.inl rfl)) hfits)
    rw [if_neg ha, if_neg hb]
  case h_5 first last =>
    obtain ⟨ha, hb⟩ := not_or.mp (mt (fits_of_register (Or.inr rfl)) hfits)
    rw [if_neg ha, if_neg hb]
  case h_6 last => exact absurd (.input last) hfits
  case h_7 last => exact absurd (.number .out last) hfits
  case h_8 last => exact absurd (.number .jnc last) hfits
  case h_9 last => exact absurd (.number .jmp last) hfits
  case h_10 => rfl

theorem ofOperands_data : ofOperands .data [text] = .error problem ↔
    NumberFault 255 text problem := by
  have hnumber : number 255 text = .error problem ↔ NumberFault 255 text problem :=
    number_eq_error_iff
  rw [← hnumber, ofOperands]
  cases number 255 text <;> simp

theorem ofOperands_data_of_count (hcount : args.length ≠ 1) :
    ofOperands .data args = .error .dataNeedsOneValue := by
  rcases args with _ | ⟨first, _ | ⟨second, rest⟩⟩
  · rfl
  · exact absurd rfl hcount
  · rfl

/-- Operands that are refused are at fault. -/
theorem operandFault_of_ofOperands (h : ofOperands m args = .error problem) :
    OperandFault m args problem := by
  by_cases hdata : m = .data
  · subst hdata
    by_cases hcount : args.length = 1
    · obtain ⟨text, rfl⟩ := List.length_eq_one_iff.mp hcount
      exact .data (ofOperands_data.mp h)
    · rw [ofOperands_data_of_count hcount] at h
      cases h
      exact .dataCount hcount
  by_cases hfits : Fits m args
  case neg =>
    rw [ofOperands_of_not_fits hdata hfits] at h
    cases h
    exact .unfit hdata hfits
  -- an operand that begins with a register is read as one, whatever else it could be
  have hoffset : ∀ {front last}, args = front ++ [last] →
      (¬ ∀ register op, OffsetForm m front register op →
        ∀ offset, ¬ WithRegister register last offset) → OperandFault m args problem := by
    rintro front last rfl hregister
    simp only [not_forall, not_not] at hregister
    obtain ⟨register, op, hform, offset, htext⟩ := hregister
    rw [ofOperands_offset hform htext] at h
    obtain ⟨behind, rfl, hfault⟩ := withOffset_eq_error_iff.mp h
    exact .offset hform htext hfault
  cases hfits with
  | nop => cases h
  | @number _ front op hform last =>
    by_cases hregister : ∀ register op, OffsetForm m front register op →
      ∀ offset, ¬ WithRegister register last offset
    case neg => exact hoffset rfl hregister
    -- a jump whose operand is a label would have been read
    have hlabel : ∀ op, JumpForm m op → isIdentifier last = false := by
      intro jump hjump
      rw [Bool.eq_false_iff]
      intro hname
      have hread := ofOperands_of_means (.label hjump hname)
      obtain rfl : front = [] := by
        cases hjump <;> cases hform <;> rfl
      rw [List.nil_append, hread] at h
      cases h
    rw [ofOperands_number hform hregister hlabel] at h
    exact .number hform hregister hlabel (withNumber_eq_error_iff.mp h)
  | input last =>
    by_cases hregister : ∀ register op, OffsetForm .input [] register op →
      ∀ offset, ¬ WithRegister register last offset
    case neg => exact @hoffset [] _ rfl hregister
    rw [ofOperands_input hregister] at h
    cases h
    exact .input hregister

/-- **Which operands are refused.** -/
theorem ofOperands_eq_error_iff :
    ofOperands m args = .error problem ↔ OperandFault m args problem := by
  refine ⟨operandFault_of_ofOperands, fun h => ?_⟩
  cases h with
  | dataCount hcount => exact ofOperands_data_of_count hcount
  | data hfault => exact ofOperands_data.mpr hfault
  | number hform hregister hlabel hfault =>
    rw [ofOperands_number hform hregister hlabel]
    exact withNumber_eq_error_iff.mpr hfault
  | offset hform htext hfault =>
    rw [ofOperands_offset hform htext]
    exact withOffset_eq_error_iff.mpr ⟨_, rfl, hfault⟩
  | input hregister => exact ofOperands_input hregister
  | unfit hdata hfits => exact ofOperands_of_not_fits hdata hfits

/-- **Which statements are refused.** -/
theorem read_eq_error_iff {body : List Char} :
    read body = .error problem ↔ StatementFault body problem := by
  constructor
  · intro h
    rw [read] at h
    split at h
    case h_1 word args hparts =>
      split at h
      case h_1 m hm =>
        rw [← Mnemonic.text_of_ofText? hm] at hparts
        exact .operands hparts (ofOperands_eq_error_iff.mp h)
      case h_2 hnone =>
        cases h
        refine .unknownMnemonic hparts ?_
        rintro m rfl
        rw [Mnemonic.ofText?_text] at hnone
        cases hnone
  · intro h
    cases h with
    | @unknownMnemonic word args hparts hword =>
      have hnone : Mnemonic.ofText? word = none := by
        rw [Option.eq_none_iff_forall_ne_some]
        exact fun m hm => hword m (Mnemonic.text_of_ofText? hm)
      simp only [read, hparts, hnone]
    | @operands m args _ hparts hfault =>
      simp only [read, hparts, Mnemonic.ofText?_text]
      exact ofOperands_eq_error_iff.mpr hfault

/-- A statement with nothing wrong is read. -/
theorem exists_read_iff {body : List Char} :
    (∃ s, read body = .ok s) ↔ ∀ problem, ¬ StatementFault body problem := by
  constructor
  · rintro ⟨s, hs⟩ problem hfault
    rw [read_eq_error_iff.mpr hfault] at hs
    cases hs
  · intro h
    rcases hread : read body with problem | s
    · exact absurd (read_eq_error_iff.mp hread) (h problem)
    · exact ⟨s, rfl⟩

end Statement

end Assembly
end TD4
