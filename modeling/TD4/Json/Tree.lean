/-
JSON values.

A value is kept as the text gives it: the members of an object stay in order
and may repeat a name, and of a number only plain natural numbers are kept
apart.  A string is a list of symbols, because an escape can stand for half of
a surrogate pair, which is no character.

* `decode` puts a string together, and fails on a surrogate without its
  partner;
* `encode` is the string of a text, and `decode_encode` takes it back.
-/

namespace TD4
namespace Json

/-- An element of a string. -/
inductive Symbol
  | char (c : Char)
  /-- The surrogate at a distance from the first one, `0xD800`. -/
  | surrogate (n : Fin 2048)
  deriving DecidableEq, Repr

/-- The text of a string.  A surrogate of the upper half must be followed by
one of the lower half, and the two are one character. -/
def decode : List Symbol → Option (List Char)
  | [] => some []
  | .char c :: rest => (decode rest).map (c :: ·)
  | .surrogate high :: .surrogate low :: rest =>
    if high.val < 1024 ∧ 1024 ≤ low.val then
      (decode rest).map (Char.ofNat (0x10000 + high.val * 1024 + (low.val - 1024)) :: ·)
    else none
  | .surrogate _ :: _ => none

/-- The string of a text. -/
def encode (text : List Char) : List Symbol := text.map .char

theorem decode_encode (text : List Char) : decode (encode text) = some text := by
  induction text with
  | nil => rfl
  | cons c rest ih =>
    show (decode (encode rest)).map (c :: ·) = some (c :: rest)
    rw [ih]
    rfl

end Json

/-- A JSON value. -/
inductive Json
  | null
  | bool (b : Bool)
  /-- A number written with digits only. -/
  | natural (n : Nat)
  /-- A number with a sign, a fraction or an exponent. -/
  | real
  | string (text : List Json.Symbol)
  | array (items : List Json)
  | object (members : List (List Json.Symbol × Json))

namespace Json

/-- The string value of a text. -/
def text (chars : List Char) : Json := .string (encode chars)

/-- The member of an object with a name. -/
def member (name : List Char) (value : Json) : List Symbol × Json := (encode name, value)

end Json
end TD4
