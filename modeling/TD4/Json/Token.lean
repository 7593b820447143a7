/-
The tokens of a JSON text.

* `scan` cuts a text into tokens; it fails on any text that no tokens spell.
  It is strict: no leading zeros, no control characters in strings, no escapes
  but the standard ones, and only the four standard blanks between tokens.
* `Token.text` writes a token, a natural number without leading zeros and a
  string with as few escapes as can be.
-/
import TD4.Json.Tree
import TD4.Text.Digits
import TD4.Text.Numeral

namespace TD4
namespace Json

/-- A token. -/
inductive Token
  | openArray
  | closeArray
  | openObject
  | closeObject
  | comma
  | colon
  | null
  | bool (b : Bool)
  | natural (n : Nat)
  | real
  | string (text : List Symbol)
  deriving DecidableEq, Repr

/-! ### Reading -/

/-- The blanks between tokens. -/
def isSpace (c : Char) : Bool := c == ' ' || c == '\t' || c == '\n' || c == '\r'

/-- The symbol with a code unit. -/
def symbolOfUnit (unit : Nat) : Symbol :=
  if h : 0xD800 ≤ unit ∧ unit < 0xE000 then .surrogate ⟨unit - 0xD800, by omega⟩
  else .char (Char.ofNat unit)

/-- The symbol that a letter after a backslash stands for. -/
def shortEscape? : Char → Option Symbol
  | '\"' => some (.char '\"')
  | '\\' => some (.char '\\')
  | '/' => some (.char '/')
  | 'b' => some (.char '\x08')
  | 'f' => some (.char '\x0c')
  | 'n' => some (.char '\n')
  | 'r' => some (.char '\r')
  | 't' => some (.char '\t')
  | _ => none

/-- The symbol with four hexadecimal digits. -/
def longEscape? (a b c d : Char) : Option Symbol :=
  (Text.natural? 16 [a, b, c, d]).map symbolOfUnit

/-- Read a string after its opening quotation mark; the second part is what
follows the closing one. -/
def scanString : List Char → Option (List Symbol × List Char)
  | [] => none
  | '\"' :: rest => some ([], rest)
  | '\\' :: 'u' :: a :: b :: c :: d :: rest => do
    let symbol ← longEscape? a b c d
    let (symbols, after) ← scanString rest
    some (symbol :: symbols, after)
  | '\\' :: c :: rest => do
    let symbol ← shortEscape? c
    let (symbols, after) ← scanString rest
    some (symbol :: symbols, after)
  | c :: rest =>
    if c = '\\' ∨ c.val < 0x20 then none
    else do
      let (symbols, after) ← scanString rest
      some (.char c :: symbols, after)

/-- The digits at the start of a text, at least one, and what follows them. -/
def someDigits? (cs : List Char) : Option (List Char × List Char) :=
  if (cs.takeWhile Char.isDigit).isEmpty then none
  else some (cs.takeWhile Char.isDigit, cs.dropWhile Char.isDigit)

/-- What follows a fraction, if one begins here. -/
def skipFraction? : List Char → Option (Option (List Char))
  | '.' :: rest => (someDigits? rest).map fun p => some p.2
  | _ => some none

/-- What follows an exponent, if one begins here. -/
def skipExponent? : List Char → Option (Option (List Char))
  | c :: rest =>
    if c = 'e' ∨ c = 'E' then
      match rest with
      | '+' :: digits => (someDigits? digits).map fun p => some p.2
      | '-' :: digits => (someDigits? digits).map fun p => some p.2
      | digits => (someDigits? digits).map fun p => some p.2
    else some none
  | [] => some none

/-- Read a number without its sign. -/
def scanUnsigned (cs : List Char) : Option (Token × List Char) := do
  let (digits, rest) ← someDigits? cs
  if digits.head? = some '0' ∧ digits.length ≠ 1 then none
  let value ← Text.natural? 10 digits
  match ← skipFraction? rest with
  | some rest =>
    match ← skipExponent? rest with
    | some rest => some (.real, rest)
    | none => some (.real, rest)
  | none =>
    match ← skipExponent? rest with
    | some rest => some (.real, rest)
    | none => some (.natural value, rest)

/-- Read a number. -/
def scanNumber : List Char → Option (Token × List Char)
  | '-' :: rest => (scanUnsigned rest).map fun p => (.real, p.2)
  | cs => scanUnsigned cs

/-- Read one token at the start of a text that does not begin with a blank. -/
def scanToken : List Char → Option (Token × List Char)
  | '[' :: rest => some (.openArray, rest)
  | ']' :: rest => some (.closeArray, rest)
  | '\x7b' :: rest => some (.openObject, rest)
  | '\x7d' :: rest => some (.closeObject, rest)
  | ',' :: rest => some (.comma, rest)
  | ':' :: rest => some (.colon, rest)
  | 'n' :: 'u' :: 'l' :: 'l' :: rest => some (.null, rest)
  | 't' :: 'r' :: 'u' :: 'e' :: rest => some (.bool true, rest)
  | 'f' :: 'a' :: 'l' :: 's' :: 'e' :: rest => some (.bool false, rest)
  | '\"' :: rest => (scanString rest).map fun p => (.string p.1, p.2)
  | cs => scanNumber cs

/-- Cut a text into at most a number of tokens and blanks.  The tokens found so
far are given in reverse. -/
def scanUpTo : Nat → List Token → List Char → Option (List Token)
  | _, found, [] => some found.reverse
  | 0, _, _ :: _ => none
  | n + 1, found, c :: rest =>
    if isSpace c then scanUpTo n found rest
    else
      match scanToken (c :: rest) with
      | some (token, after) => scanUpTo n (token :: found) after
      | none => none

/-- The tokens of a text.  Each of them, and each blank, takes at least one
character. -/
def scan (text : List Char) : Option (List Token) := scanUpTo text.length [] text

/-! ### Writing -/

/-- A code unit as an escape. -/
def escapeUnit (unit : Nat) : List Char :=
  '\\' :: 'u' :: Text.padStart 4 '0' (Text.hexadecimal unit)

/-- A symbol inside a string. -/
def Symbol.text : Symbol → List Char
  | .char c => if c = '\"' ∨ c = '\\' ∨ c.val < 0x20 then escapeUnit c.toNat else [c]
  | .surrogate n => escapeUnit (0xD800 + n.val)

/-- A token as text. -/
def Token.text : Token → List Char
  | .openArray => ['[']
  | .closeArray => [']']
  | .openObject => ['\x7b']
  | .closeObject => ['\x7d']
  | .comma => [',']
  | .colon => [':']
  | .null => "null".toList
  | .bool true => "true".toList
  | .bool false => "false".toList
  | .natural n => Text.decimal n
  | .real => "-0".toList
  | .string symbols => '\"' :: symbols.flatMap Symbol.text ++ ['\"']

end Json
end TD4
