/-
What can be wrong with a program text.

A `Problem` is one cause; an `Error` is a problem with the number of the line
it was found on, counted from 1.  `Error.message` is the wording.  The problems
of form all read as syntax errors; five kinds are told apart for whoever sorts
errors (`Problem.kind`).
-/

namespace TD4
namespace Assembly

/-- The words a statement can begin with. -/
inductive Mnemonic
  | nop
  | add
  | mov
  | input
  | output
  | jnc
  | jmp
  /-- A byte given as it is. -/
  | data
  deriving DecidableEq, Repr

/-- How a mnemonic is written. -/
def Mnemonic.text : Mnemonic → List Char
  | nop => "nop".toList
  | add => "add".toList
  | mov => "mov".toList
  | input => "in".toList
  | output => "out".toList
  | jnc => "jnc".toList
  | jmp => "jmp".toList
  | data => "db".toList

/-- What is wrong. -/
inductive Problem
  /-- The text before a colon is no identifier. -/
  | invalidLabel (text : List Char)
  | labelDefinedTwice (name : List Char)
  /-- Raw data with no value or with several. -/
  | dataNeedsOneValue
  /-- The input goes somewhere that is not a register. -/
  | inputNeedsRegister
  /-- The operands fit no form of the statement. -/
  | badOperands (mnemonic : Mnemonic)
  /-- An operand that is neither a number nor an identifier. -/
  | invalidOperand (text : List Char)
  /-- An operand that begins as a number and is none, or is beyond 32 bits. -/
  | invalidNumber (text : List Char)
  /-- An identifier where only a number may stand. -/
  | labelForNumber (text : List Char)
  | unknownMnemonic (text : List Char)
  | undefinedLabel (name : List Char)
  | outOfRange (value : Nat)
  | programTooLarge
  deriving DecidableEq, Repr

/-- The sorts of problem. -/
inductive Problem.Kind
  | form
  | unknownMnemonic
  | undefinedLabel
  | outOfRange
  | programTooLarge
  deriving DecidableEq, Repr

/-- The sort a problem belongs to. -/
def Problem.kind : Problem → Problem.Kind
  | .unknownMnemonic _ => .unknownMnemonic
  | .undefinedLabel _ => .undefinedLabel
  | .outOfRange _ => .outOfRange
  | .programTooLarge => .programTooLarge
  | _ => .form

/-- A text in quotation marks. -/
def quoted (text : List Char) : String := "\x27" ++ String.ofList text ++ "\x27"

/-- What a problem says beside its kind and its line. -/
def Problem.detail : Problem → String
  | .invalidLabel text => "invalid label " ++ quoted text
  | .labelDefinedTwice name => "label " ++ quoted name ++ " defined twice"
  | .dataNeedsOneValue => "db takes one value"
  | .inputNeedsRegister => "in expects register a or b"
  | .badOperands mnemonic => "bad operands for " ++ quoted mnemonic.text
  | .invalidOperand text => "invalid operand " ++ quoted text
  | .invalidNumber text => "invalid number " ++ quoted text
  | .labelForNumber text => "expected a number, found " ++ quoted text
  | .unknownMnemonic text => String.ofList text
  | .undefinedLabel name => String.ofList name
  | .outOfRange value => toString value
  | .programTooLarge => ""

/-- A problem on a line. -/
structure Error where
  /-- The number of the line, counted from 1. -/
  line : Nat
  problem : Problem
  deriving DecidableEq, Repr

/-- The wording of an error. -/
def Error.message (e : Error) : String :=
  let line := toString e.line
  let detail := e.problem.detail
  match e.problem.kind with
  | .form => "syntax error on line " ++ line ++ ": " ++ detail
  | .unknownMnemonic => "unknown mnemonic on line " ++ line ++ ": " ++ detail
  | .undefinedLabel => "undefined label on line " ++ line ++ ": " ++ detail
  | .outOfRange => "value out of range on line " ++ line ++ ": " ++ detail
  | .programTooLarge => "program does not fit in 16 bytes (line " ++ line ++ ")"

end Assembly
end TD4
