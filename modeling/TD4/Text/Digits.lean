/-
Numbers as text.

* `decimal`, `binary` and `hexadecimal` write a number without padding, the
  last with capital letters;
* `padStart` and `padEnd` fill a text up to a width and never cut it;
* `hexByte` is the two-digit form of a byte.
-/

namespace TD4
namespace Text

/-- The decimal digits of a number, without leading zeros. -/
def decimal (n : Nat) : List Char := Nat.toDigits 10 n

/-- The binary digits of a number, without leading zeros. -/
def binary (n : Nat) : List Char := Nat.toDigits 2 n

/-- The hexadecimal digits of a number, capital letters, without leading zeros. -/
def hexadecimal (n : Nat) : List Char := (Nat.toDigits 16 n).map Char.toUpper

/-- Fill a text on the left up to a width. -/
def padStart (width : Nat) (fill : Char) (text : List Char) : List Char :=
  List.replicate (width - text.length) fill ++ text

/-- Fill a text with blanks on the right up to a width. -/
def padEnd (width : Nat) (text : List Char) : List Char :=
  text ++ List.replicate (width - text.length) ' '

/-- A byte as two hexadecimal digits. -/
def hexByte (b : UInt8) : List Char := padStart 2 '0' (hexadecimal b.toNat)

end Text
end TD4
