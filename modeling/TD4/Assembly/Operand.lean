/-
Operands.

* `Value.read` takes an operand as a number (decimal, `0x` hexadecimal or `0b`
  binary) or as the name of a label;
* `number` takes it as a number up to a bound;
* `offsetOf?` takes it as a register with an offset, `b` or `b+3`.

An operand comes in lower case and without blanks at its ends.
-/
import TD4.Assembly.Error
import TD4.Text.Blank
import TD4.Text.Numeral

namespace TD4
namespace Assembly

/-- May a character begin an identifier? -/
def startsIdentifier (c : Char) : Bool := c.isAlpha || c == '_'

/-- May a character stand inside an identifier? -/
def continuesIdentifier (c : Char) : Bool := c.isAlphanum || c == '_'

/-- Is a text an identifier: an ASCII letter or an underscore, then letters,
digits and underscores? -/
def isIdentifier : List Char → Bool
  | [] => false
  | c :: rest => startsIdentifier c && rest.all continuesIdentifier

/-- An operand that stands for itself. -/
inductive Value
  | number (n : Nat)
  | label (name : List Char)
  deriving DecidableEq, Repr

/-- Numbers from here on are not read. -/
def numberLimit : Nat := UInt32.size

/-- The number that the outcome of a digit reader stands for, in an operand. -/
def Value.ofNatural (text : List Char) : Option Nat → Except Problem Value
  | some n => if n < numberLimit then .ok (.number n) else .error (.invalidNumber text)
  | none => .error (.invalidNumber text)

/-- Read an operand as a number or a label.  The base of a number is told by
its first characters; after `0x` and `0b` one plus sign may stand. -/
def Value.read (text : List Char) : Except Problem Value :=
  match text with
  | '0' :: 'x' :: digits => Value.ofNatural text (Text.signless? 16 digits)
  | '0' :: 'b' :: digits => Value.ofNatural text (Text.signless? 2 digits)
  | c :: _ =>
    if c.isDigit then Value.ofNatural text (Text.natural? 10 text)
    else if isIdentifier text then .ok (.label text)
    else .error (.invalidOperand text)
  | [] => .error (.invalidOperand text)

/-- Read an operand as a number that is at most a bound. -/
def number (bound : UInt8) (text : List Char) : Except Problem UInt8 :=
  match Value.read text with
  | .ok (.number n) =>
    if n ≤ bound.toNat then .ok (UInt8.ofNat n) else .error (.outOfRange n)
  | .ok (.label _) => .error (.labelForNumber text)
  | .error problem => .error problem

/-- The text of the offset in an operand that begins with a register: nothing
if the register stands alone, and the text after the plus sign otherwise. -/
def offsetOf? (register : Char) : List Char → Option (Option (List Char))
  | [] => none
  | c :: rest =>
    if c = register then
      match Text.trimStart rest with
      | [] => some none
      | '+' :: offset => some (some (Text.trim offset))
      | _ => none
    else none

/-- The value of an offset that may be left out. -/
def offsetValue : Option (List Char) → Except Problem UInt8
  | none => .ok 0
  | some text => number 15 text

end Assembly
end TD4
