/-
Texts that spell tokens.

A text spells tokens if it consists of the tokens as they are written, with any
blanks between them (`Spells`).

* `lexeme_text`: the text of a token is one of the ways to write it;
* `scan_of_spells`: a text is cut into the tokens it spells.
-/
import TD4.Proofs.Json.Lexeme

namespace TD4
namespace Json

/-- A text spells tokens. -/
inductive Spells : List Token → List Char → Prop
  | nil : Spells [] []
  | blank {tokens : List Token} {text : List Char} {c : Char} (hspace : isSpace c = true)
      (hrest : Spells tokens text) : Spells tokens (c :: text)
  | token {tokens : List Token} {rest : List Char} {t : Token} (hmay : t.MayPrecede rest)
      (hrest : Spells tokens rest) : Spells (t :: tokens) (t.text ++ rest)

variable {text : List Char} {tokens : List Token}

/-! ### Strings -/

theorem symbolOfUnit_of_char {c : Char} (h : c.toNat < 0xD800) :
    symbolOfUnit c.toNat = .char c := by
  rw [symbolOfUnit, dif_neg (by omega), Char.ofNat_toNat]

theorem symbolOfUnit_of_surrogate (n : Fin 2048) : symbolOfUnit (0xD800 + n.val) = .surrogate n := by
  have hrange : 0xD800 ≤ 0xD800 + n.val ∧ 0xD800 + n.val < 0xE000 := by omega
  rw [symbolOfUnit, dif_pos hrange]
  simp only [Nat.add_sub_cancel_left, Fin.eta]

/-- An escape has four digits, which give the code unit. -/
theorem symbolText_escapeUnit {unit : Nat} (h : unit < 0x10000) :
    SymbolText (symbolOfUnit unit) (escapeUnit unit) := by
  have hshort : (Text.hexadecimal unit).length ≤ 4 := by
    rw [Text.hexadecimal, List.length_map]
    exact (Nat.length_toDigits_le_iff (by decide) (by decide)).mpr h
  exact .long (Text.length_padStart hshort '0')
    (Text.positional_padStart (by decide) (by decide) (Text.positional_hexadecimal unit) 4)

theorem symbolText_text (symbol : Symbol) : SymbolText symbol symbol.text := by
  cases symbol with
  | surrogate n =>
    have hescape := symbolText_escapeUnit (show 0xD800 + n.val < 0x10000 by omega)
    rwa [symbolOfUnit_of_surrogate] at hescape
  | char c =>
    rw [Symbol.text]
    split
    case isTrue hspecial =>
      -- quotation marks, backslashes and control characters are no surrogates
      have hsmall : c.toNat < 0x80 := by
        rcases hspecial with rfl | rfl | hcontrol
        · decide
        · decide
        · exact Nat.lt_trans (UInt32.lt_iff_toNat_lt.mp hcontrol) (by decide)
      rw [← symbolOfUnit_of_char (by omega)]
      exact symbolText_escapeUnit (by omega)
    case isFalse hplain =>
      simp only [not_or, UInt32.not_lt] at hplain
      exact .plain hplain.1 hplain.2.1 (UInt32.le_iff_toNat_le.mp hplain.2.2)

theorem stringText_text (symbols : List Symbol) :
    StringText symbols (symbols.flatMap Symbol.text) := by
  induction symbols with
  | nil => exact .nil
  | cons symbol symbols ih => exact .cons (symbolText_text symbol) ih

/-! ### Numbers -/

/-- A number other than zero is written without leading zeros. -/
theorem head?_decimal_ne {n : Nat} (hn : 0 < n) : (Text.decimal n).head? ≠ some '0' := by
  rw [Text.decimal]
  induction n using Nat.strongRecOn with
  | _ n ih =>
    rw [Nat.toDigits_eq_if (by decide)]
    split
    case isTrue hlt => interval_cases n <;> decide
    case isFalse hge =>
      have hfront := ih (n / 10) (by omega) (by omega)
      obtain ⟨c, digits, hdigits⟩ := List.exists_cons_of_ne_nil
        (Nat.toDigits_ne_nil (n := n / 10) (b := 10))
      rw [hdigits] at hfront ⊢
      exact hfront

theorem whole_decimal (n : Nat) : Whole n (Text.decimal n) := by
  rcases Nat.eq_zero_or_pos n with rfl | hpos
  · exact .zero
  · exact .positive ((Text.natural?_eq_some_iff (by decide)).mp (Text.natural?_decimal n))
      (head?_decimal_ne hpos)

/-! ### Tokens -/

/-- The text of a token is one of the ways to write it. -/
theorem lexeme_text (token : Token) : Lexeme token token.text := by
  cases token with
  | openArray => exact .openArray
  | closeArray => exact .closeArray
  | openObject => exact .openObject
  | closeObject => exact .closeObject
  | comma => exact .comma
  | colon => exact .colon
  | null => exact .null
  | bool b =>
    cases b with
    | true => exact .true
    | false => exact .false
  | natural n => exact .natural (whole_decimal n)
  | real =>
    -- it is written as zero with a sign
    have hzero : RealText (['-'] ++ (['0'] ++ ([] ++ []))) :=
      .intro (Or.inr rfl) .zero .absent .absent (List.cons_ne_nil _ _)
    exact .real hzero
  | string symbols => exact .string (stringText_text symbols)

theorem Spells.lexed (h : Spells tokens text) : Lexed tokens text := by
  induction h with
  | nil => exact .nil
  | blank hspace _ ih => exact .blank hspace ih
  | token hmay _ ih => exact .token (lexeme_text _) hmay ih

theorem scan_of_spells (h : Spells tokens text) : scan text = some tokens :=
  scan_of_lexed h.lexed

end Json
end TD4
