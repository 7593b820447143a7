/-
How tokens may be written.

The grammar of JSON leaves many choices: a character of a string stands as it is or
is escaped, in one way or another, and a number has a sign, a fraction and an
exponent or goes without.  `Lexeme` has them all, and `Lexed` is a text of tokens,
each written in any way, with any blanks between them.  Only a number has to be
looked at twice: it must not be followed by something that would continue it.

* `scanToken_of_lexeme`: however a token is written, it is read as that token;
* `scan_of_lexed`: a text is cut into the tokens it consists of.
-/
import TD4.Json.Token
import TD4.Proofs.Text.Pieces
import TD4.Proofs.Text.Positional
import Mathlib.Data.List.Basic

namespace TD4
namespace Json

/-! ### Ways of writing -/

/-- The letters that may follow a backslash, and what they stand for. -/
def shortEscapes : List (Char × Char) :=
  [('\"', '\"'), ('\\', '\\'), ('/', '/'), ('b', '\x08'), ('f', '\x0c'), ('n', '\n'),
    ('r', '\r'), ('t', '\t')]

/-- The ways to write a symbol of a string. -/
inductive SymbolText : Symbol → List Char → Prop
  | plain {c : Char} (hquote : c ≠ '\"') (hslash : c ≠ '\\') (hcontrol : 0x20 ≤ c.toNat) :
      SymbolText (.char c) [c]
  | short {letter c : Char} (h : (letter, c) ∈ shortEscapes) : SymbolText (.char c) ['\\', letter]
  /-- A code unit in hexadecimal. -/
  | long {digits : List Char} {unit : Nat} (hfour : digits.length = 4)
      (h : Text.Positional 16 digits unit) : SymbolText (symbolOfUnit unit) ('\\' :: 'u' :: digits)

/-- The ways to write what stands between quotation marks. -/
inductive StringText : List Symbol → List Char → Prop
  | nil : StringText [] []
  | cons {symbol : Symbol} {symbols : List Symbol} {front rest : List Char}
      (hfront : SymbolText symbol front) (hrest : StringText symbols rest) :
      StringText (symbol :: symbols) (front ++ rest)

/-- A number in digits, without leading zeros. -/
inductive Whole : Nat → List Char → Prop
  | zero : Whole 0 ['0']
  | positive {n : Nat} {digits : List Char} (h : Text.Positional 10 digits n)
      (hlead : digits.head? ≠ some '0') : Whole n digits

/-- Any digits, at least one. -/
def Digits (text : List Char) : Prop := text ≠ [] ∧ ∀ c ∈ text, c.isDigit = true

instance (text : List Char) : Decidable (Digits text) :=
  decidable_of_iff (text ≠ [] ∧ text.all Char.isDigit = true) (by rw [Digits, List.all_eq_true])

/-- A fraction, or nothing. -/
inductive Fraction : List Char → Prop
  | absent : Fraction []
  | present {digits : List Char} (h : Digits digits) : Fraction ('.' :: digits)

/-- An exponent, or nothing. -/
inductive Exponent : List Char → Prop
  | absent : Exponent []
  | present {mark : Char} {sign digits : List Char} (hmark : mark = 'e' ∨ mark = 'E')
      (hsign : sign = [] ∨ sign = ['+'] ∨ sign = ['-']) (h : Digits digits) :
      Exponent (mark :: (sign ++ digits))

/-- A number with a sign, a fraction or an exponent. -/
inductive RealText : List Char → Prop
  | intro {n : Nat} {sign whole fraction exponent : List Char} (hsign : sign = [] ∨ sign = ['-'])
      (hwhole : Whole n whole) (hfraction : Fraction fraction) (hexponent : Exponent exponent)
      (hmarked : sign ++ fraction ++ exponent ≠ []) :
      RealText (sign ++ (whole ++ (fraction ++ exponent)))

/-- The ways to write a token. -/
inductive Lexeme : Token → List Char → Prop
  | openArray : Lexeme .openArray ['[']
  | closeArray : Lexeme .closeArray [']']
  | openObject : Lexeme .openObject ['\x7b']
  | closeObject : Lexeme .closeObject ['\x7d']
  | comma : Lexeme .comma [',']
  | colon : Lexeme .colon [':']
  | null : Lexeme .null "null".toList
  | true : Lexeme (.bool true) "true".toList
  | false : Lexeme (.bool false) "false".toList
  | natural {n : Nat} {text : List Char} (h : Whole n text) : Lexeme (.natural n) text
  | real {text : List Char} (h : RealText text) : Lexeme .real text
  | string {symbols : List Symbol} {text : List Char} (h : StringText symbols text) :
      Lexeme (.string symbols) ('\"' :: (text ++ ['\"']))

/-! ### What may follow a token -/

/-- Would a character continue a number? -/
def continuesNumber (c : Char) : Bool := c.isDigit || c == '.' || c == 'e' || c == 'E'

/-- A text that does not continue a number before it. -/
def EndsNumber (rest : List Char) : Prop := ∀ c tail, rest = c :: tail → continuesNumber c = false

/-- May a text follow a token? -/
def Token.MayPrecede : Token → List Char → Prop
  | .natural _, rest => EndsNumber rest
  | .real, rest => EndsNumber rest
  | _, _ => True

/-- A text consists of tokens. -/
inductive Lexed : List Token → List Char → Prop
  | nil : Lexed [] []
  | blank {tokens : List Token} {text : List Char} {c : Char} (hspace : isSpace c = true)
      (hrest : Lexed tokens text) : Lexed tokens (c :: text)
  | token {tokens : List Token} {front rest : List Char} {t : Token} (hlexeme : Lexeme t front)
      (hmay : t.MayPrecede rest) (hrest : Lexed tokens rest) : Lexed (t :: tokens) (front ++ rest)

variable {rest text : List Char} {c : Char} {tokens : List Token} {token : Token}

theorem endsNumber_nil : EndsNumber [] := nofun

theorem endsNumber_cons (h : continuesNumber c = false) (rest : List Char) :
    EndsNumber (c :: rest) := by
  rintro _ _ ⟨⟩
  exact h

theorem EndsNumber.head (h : EndsNumber (c :: text)) :
    c.isDigit = false ∧ c ≠ '.' ∧ c ≠ 'e' ∧ c ≠ 'E' := by
  have hc := h c text rfl
  simp only [continuesNumber, Bool.or_eq_false_iff, beq_eq_false_iff_ne] at hc
  exact ⟨hc.1.1.1, hc.1.1.2, hc.1.2, hc.2⟩

/-! ### Strings -/

theorem scanString_plain {symbols : List Symbol} {after : List Char} (hquote : c ≠ '\"')
    (hslash : c ≠ '\\') (hcontrol : ¬ c.val < 0x20)
    (hrest : scanString text = some (symbols, after)) :
    scanString (c :: text) = some (.char c :: symbols, after) := by
  rw [scanString.eq_def]
  split
  case h_1 heq => cases heq
  case h_2 heq =>
    cases heq
    exact absurd rfl hquote
  case h_3 heq =>
    cases heq
    exact absurd rfl hslash
  case h_4 heq =>
    cases heq
    exact absurd rfl hslash
  case h_5 heq =>
    cases heq
    rw [if_neg (not_or.mpr ⟨hslash, hcontrol⟩), hrest]
    rfl

theorem scanString_short {letter : Char} {symbols : List Symbol} {after : List Char}
    (h : (letter, c) ∈ shortEscapes) (hrest : scanString text = some (symbols, after)) :
    scanString ('\\' :: letter :: text) = some (.char c :: symbols, after) := by
  have hescape : ∀ p ∈ shortEscapes, p.1 ≠ 'u' ∧ shortEscape? p.1 = some (.char p.2) := by decide
  obtain ⟨hne, hsymbol⟩ := hescape _ h
  -- only after the letter `u` are there digits to read
  rw [scanString.eq_def]
  split
  case h_1 heq => cases heq
  case h_2 heq => cases heq
  case h_3 heq =>
    cases heq
    exact absurd rfl hne
  case h_4 heq =>
    cases heq
    rw [hsymbol, hrest]
    rfl
  case h_5 hnot heq =>
    cases heq
    exact absurd rfl (hnot _ _ rfl)

theorem scanString_long {digits : List Char} {unit : Nat} {symbols : List Symbol}
    {after : List Char} (hfour : digits.length = 4) (h : Text.Positional 16 digits unit)
    (hrest : scanString text = some (symbols, after)) :
    scanString ('\\' :: 'u' :: (digits ++ text)) = some (symbolOfUnit unit :: symbols, after) := by
  obtain ⟨a, tail, rfl⟩ := List.exists_cons_of_length_eq_add_one hfour
  obtain ⟨b, c, d, rfl⟩ := List.length_eq_three.mp (Nat.succ.inj hfour)
  have hsymbol : longEscape? a b c d = some (symbolOfUnit unit) := by
    rw [longEscape?, (Text.natural?_eq_some_iff (by decide)).mpr h]
    rfl
  simp [scanString, hsymbol, hrest]

theorem scanString_of_symbolText {symbol : Symbol} {front : List Char} {symbols : List Symbol}
    {after : List Char} (h : SymbolText symbol front)
    (hrest : scanString text = some (symbols, after)) :
    scanString (front ++ text) = some (symbol :: symbols, after) := by
  cases h with
  | plain hquote hslash hcontrol =>
    refine scanString_plain hquote hslash ?_ hrest
    rw [UInt32.lt_iff_toNat_lt]
    exact Nat.not_lt.mpr hcontrol
  | short hescape => exact scanString_short hescape hrest
  | long hfour hdigits => exact scanString_long hfour hdigits hrest

/-- However a string is written, it is read as that string. -/
theorem scanString_of_stringText {symbols : List Symbol} (h : StringText symbols text)
    (rest : List Char) : scanString (text ++ '\"' :: rest) = some (symbols, rest) := by
  induction h with
  | nil => rw [List.nil_append, scanString]
  | cons hfront _ ih =>
    rw [List.append_assoc]
    exact scanString_of_symbolText hfront ih

/-! ### Numbers -/

/-- A text that does not go on with digits. -/
def EndsDigits (rest : List Char) : Prop := ∀ c tail, rest = c :: tail → c.isDigit = false

theorem endsDigits_cons (h : c.isDigit = false) (rest : List Char) : EndsDigits (c :: rest) := by
  rintro _ _ ⟨⟩
  exact h

theorem EndsNumber.endsDigits (h : EndsNumber rest) : EndsDigits rest := by
  rintro c tail rfl
  exact h.head.1

theorem someDigits?_append {digits : List Char} (hdigits : Digits digits) (hends : EndsDigits rest) :
    someDigits? (digits ++ rest) = some (digits, rest) := by
  obtain ⟨htake, hdrop⟩ := Text.span_append hdigits.2 hends
  rw [someDigits?, htake, hdrop, if_neg (mt List.isEmpty_iff.mp hdigits.1)]

theorem Whole.natural? {n : Nat} (h : Whole n text) : Text.natural? 10 text = some n := by
  cases h with
  | zero => rfl
  | positive h => exact (Text.natural?_eq_some_iff (by decide)).mpr h

theorem Whole.digits {n : Nat} (h : Whole n text) : Digits text := by
  cases h with
  | zero => decide
  | positive hdigits => exact ⟨hdigits.ne_nil, hdigits.isDigit⟩

theorem Whole.no_leading_zero {n : Nat} (h : Whole n text) :
    ¬ (text.head? = some '0' ∧ text.length ≠ 1) := by
  cases h with
  | zero => exact fun hzeros => hzeros.2 rfl
  | positive _ hlead => exact fun hzeros => hlead hzeros.1

/-- An exponent, or what follows it, begins neither with a digit nor with a point. -/
theorem Exponent.head {exponent : List Char} (h : Exponent exponent) (hends : EndsNumber rest)
    {tail : List Char} (heq : exponent ++ rest = c :: tail) : c.isDigit = false ∧ c ≠ '.' := by
  cases h with
  | absent =>
    subst heq
    exact ⟨hends.head.1, hends.head.2.1⟩
  | present hmark =>
    cases heq
    rcases hmark with rfl | rfl <;> decide

theorem Exponent.endsDigits {exponent : List Char} (h : Exponent exponent)
    (hends : EndsNumber rest) : EndsDigits (exponent ++ rest) :=
  fun _ _ heq => (h.head hends heq).1

/-- The digits of an exponent come after its sign, and a digit is not taken for one. -/
theorem skipExponent?_of_mark {mark : Char} {sign digits : List Char}
    (hmark : mark = 'e' ∨ mark = 'E') (hsign : sign = [] ∨ sign = ['+'] ∨ sign = ['-'])
    (hdigits : Digits digits) (rest : List Char) :
    skipExponent? (mark :: (sign ++ (digits ++ rest)))
      = (someDigits? (digits ++ rest)).map fun p => some p.2 := by
  rw [skipExponent?.eq_def]
  simp only
  rw [if_pos hmark]
  rcases hsign with rfl | rfl | rfl
  · obtain ⟨d, ds, rfl⟩ := List.exists_cons_of_ne_nil hdigits.1
    have hd := hdigits.2 d List.mem_cons_self
    rw [List.nil_append, List.cons_append]
    split
    case h_1 heq =>
      cases heq
      exact absurd hd (by decide)
    case h_2 heq =>
      cases heq
      exact absurd hd (by decide)
    case h_3 => rfl
  · rfl
  · rfl

theorem skipExponent?_of_endsNumber (h : EndsNumber rest) : skipExponent? rest = some none := by
  rw [skipExponent?.eq_def]
  split
  case h_1 => rw [if_neg (not_or.mpr h.head.2.2)]
  case h_2 => rfl

theorem skipExponent?_append {exponent : List Char} (h : Exponent exponent)
    (hends : EndsNumber rest) :
    skipExponent? (exponent ++ rest) = some (if exponent = [] then none else some rest) := by
  cases h with
  | absent => rw [if_pos rfl, List.nil_append, skipExponent?_of_endsNumber hends]
  | present hmark hsign hdigits =>
    rw [if_neg (List.cons_ne_nil _ _), List.cons_append, List.append_assoc,
      skipExponent?_of_mark hmark hsign hdigits, someDigits?_append hdigits hends.endsDigits]
    rfl

theorem skipFraction?_append {fraction : List Char} (h : Fraction fraction)
    (hends : ∀ c tail, rest = c :: tail → c.isDigit = false ∧ c ≠ '.') :
    skipFraction? (fraction ++ rest) = some (if fraction = [] then none else some rest) := by
  cases h with
  | absent =>
    rw [if_pos rfl, List.nil_append, skipFraction?.eq_def]
    split
    case h_1 tail => exact absurd rfl (hends '.' tail rfl).2
    case h_2 => rfl
  | @present digits hdigits =>
    have hread := someDigits?_append hdigits fun c tail heq => (hends c tail heq).1
    show (someDigits? (digits ++ rest)).map (fun p => some p.2) = _
    rw [hread, if_neg (List.cons_ne_nil _ _)]
    rfl

theorem Fraction.endsDigits {fraction : List Char} (h : Fraction fraction)
    (hends : EndsDigits rest) : EndsDigits (fraction ++ rest) := by
  cases h with
  | absent => exact hends
  | present => exact endsDigits_cons (by decide) _

/-- A number without a sign is a natural number if nothing follows its digits. -/
theorem scanUnsigned_append {n : Nat} {whole fraction exponent : List Char} (hwhole : Whole n whole)
    (hfraction : Fraction fraction) (hexponent : Exponent exponent) (hends : EndsNumber rest) :
    scanUnsigned (whole ++ (fraction ++ (exponent ++ rest)))
      = some (if fraction ++ exponent = [] then .natural n else .real, rest) := by
  have hdigits := someDigits?_append hwhole.digits
    (hfraction.endsDigits (hexponent.endsDigits hends))
  have hskip := skipFraction?_append hfraction fun _ _ => hexponent.head hends
  have hskip' := skipExponent?_append hexponent hends
  rw [scanUnsigned, hdigits]
  -- what is left is to see whether the digits are all there is
  simp only [Option.bind_eq_bind, Option.bind_some, if_neg hwhole.no_leading_zero, hwhole.natural?,
    hskip]
  by_cases hf : fraction = [] <;> by_cases he : exponent = [] <;>
    simp only [hf, he, if_true, if_false, List.nil_append, List.append_eq_nil_iff, and_self,
      false_and] at hskip' ⊢ <;>
    rw [hskip'] <;> rfl

theorem scanToken_of_digit (hc : c.isDigit = true) :
    scanToken (c :: text) = scanNumber (c :: text) := by
  rw [scanToken.eq_def]
  split
  case h_11 => rfl
  all_goals
    rename_i heq
    cases heq
    exact absurd hc (by decide)

theorem scanNumber_of_digit (hc : c.isDigit = true) :
    scanNumber (c :: text) = scanUnsigned (c :: text) := by
  rw [scanNumber.eq_def]
  split
  case h_1 heq =>
    cases heq
    exact absurd hc (by decide)
  case h_2 => rfl

/-- A number without a sign is recognized by its first digit. -/
theorem scanToken_whole {n : Nat} {whole : List Char} (h : Whole n whole) (rest : List Char) :
    scanToken (whole ++ rest) = scanUnsigned (whole ++ rest) := by
  obtain ⟨c, tail, rfl⟩ := List.exists_cons_of_ne_nil h.digits.1
  have hc := h.digits.2 c List.mem_cons_self
  rw [List.cons_append, scanToken_of_digit hc, scanNumber_of_digit hc]

theorem scanToken_of_realText (h : RealText text) (hends : EndsNumber rest) :
    scanToken (text ++ rest) = some (.real, rest) := by
  cases h with
  | @intro n sign whole fraction exponent hsign hwhole hfraction hexponent hmarked =>
    have hread := scanUnsigned_append hwhole hfraction hexponent hends
    rw [List.append_assoc, List.append_assoc, List.append_assoc]
    rcases hsign with rfl | rfl
    · rw [List.nil_append] at hmarked ⊢
      rw [scanToken_whole hwhole, hread, if_neg hmarked]
    · show (scanUnsigned (whole ++ _)).map (fun p => (Token.real, p.2)) = some (.real, rest)
      rw [hread]
      rfl

/-! ### Tokens -/

/-- However a token is written, it is read as that token. -/
theorem scanToken_of_lexeme (h : Lexeme token text) (hmay : token.MayPrecede rest) :
    scanToken (text ++ rest) = some (token, rest) := by
  cases h with
  | natural hwhole =>
    have hread := scanUnsigned_append hwhole .absent .absent hmay
    rw [scanToken_whole hwhole]
    exact hread
  | real hreal => exact scanToken_of_realText hreal hmay
  | string hstring =>
    have hread := scanString_of_stringText hstring rest
    rw [List.cons_append, List.append_assoc, List.singleton_append]
    show (scanString _).map (fun p => (Token.string p.1, p.2)) = _
    rw [hread]
    rfl
  | _ => rfl

/-- What begins with a digit does not begin with a blank. -/
theorem isSpace_of_isDigit (h : c.isDigit = true) : isSpace c = false := by
  rw [isSpace, Bool.or_eq_false_iff, Bool.or_eq_false_iff, Bool.or_eq_false_iff]
  refine ⟨⟨⟨?_, ?_⟩, ?_⟩, ?_⟩ <;>
  · rw [beq_eq_false_iff_ne]
    rintro rfl
    exact absurd h (by decide)

theorem Whole.exists_cons {n : Nat} (h : Whole n text) :
    ∃ c tail, text = c :: tail ∧ isSpace c = false := by
  obtain ⟨c, tail, rfl⟩ := List.exists_cons_of_ne_nil h.digits.1
  exact ⟨c, tail, rfl, isSpace_of_isDigit (h.digits.2 c List.mem_cons_self)⟩

/-- A token takes at least one character, and the first is not a blank. -/
theorem exists_cons_of_lexeme (h : Lexeme token text) :
    ∃ c tail, text = c :: tail ∧ isSpace c = false := by
  cases h with
  | natural hwhole => exact hwhole.exists_cons
  | real hreal =>
    cases hreal with
    | intro hsign hwhole =>
      rcases hsign with rfl | rfl
      · obtain ⟨c, tail, rfl, hspace⟩ := hwhole.exists_cons
        exact ⟨c, _, rfl, hspace⟩
      · exact ⟨'-', _, rfl, rfl⟩
  | _ => exact ⟨_, _, rfl, rfl⟩

/-! ### Whole texts -/

/-- With enough turns, the tokens of a text are found after those found so far. -/
theorem scanUpTo_of_lexed (h : Lexed tokens text) {n : Nat} (hn : text.length ≤ n)
    (found : List Token) : scanUpTo n found text = some (found.reverse ++ tokens) := by
  induction h generalizing n found with
  | nil => rw [scanUpTo, List.append_nil]
  | blank hspace hrest ih =>
    obtain ⟨m, rfl⟩ := Nat.exists_eq_add_of_lt (Nat.lt_of_lt_of_le (Nat.succ_pos _) hn)
    rw [List.length_cons] at hn
    rw [Nat.zero_add, scanUpTo, if_pos hspace]
    exact ih (by omega) found
  | @token tokens front rest token hlexeme hmay hrest ih =>
    obtain ⟨c, tail, rfl, hspace⟩ := exists_cons_of_lexeme hlexeme
    have hread := scanToken_of_lexeme hlexeme hmay
    rw [List.cons_append] at hn hread ⊢
    rw [List.length_cons, List.length_append] at hn
    obtain ⟨m, rfl⟩ := Nat.exists_eq_add_of_lt (Nat.lt_of_lt_of_le (Nat.succ_pos _) hn)
    rw [Nat.zero_add, scanUpTo, if_neg (Bool.eq_false_iff.mp hspace), hread]
    simp only
    rw [ih (by omega), List.reverse_cons, List.append_assoc, List.singleton_append]

theorem scan_of_lexed (h : Lexed tokens text) : scan text = some tokens := by
  rw [scan, scanUpTo_of_lexed h (Nat.le_refl _)]
  rfl

end Json
end TD4
