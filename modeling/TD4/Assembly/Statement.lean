/-
Statements.

A statement puts one byte into the program.  A jump to a label leaves the low
nibble of its byte zero and names the label whose address goes there.

* `Statement.read` reads the text of a statement;
* `parts` is its cut into mnemonic and operands.
-/
import TD4.Assembly.Operand
import TD4.Instruction
import TD4.Text.Lowercase

namespace TD4
namespace Assembly

/-- What a statement puts into the program. -/
structure Statement where
  byte : UInt8
  /-- The label whose address belongs in the low nibble, for a jump to a label. -/
  target : Option (List Char)
  deriving DecidableEq, Repr

/-- The mnemonic with a given spelling, if there is one. -/
def Mnemonic.ofText? (text : List Char) : Option Mnemonic :=
  [nop, add, mov, input, output, jnc, jmp, data].find? fun m => m.text == text

/-- The operands in the text after a mnemonic. -/
def operands (text : List Char) : List (List Char) :=
  if text.isEmpty then [] else (text.splitOn ',').map Text.trim

/-- The mnemonic of a statement, in lower case, and its operands. -/
def parts (body : List Char) : List Char × List (List Char) :=
  let word := body.takeWhile fun c => !Text.isBlank c
  let rest := body.dropWhile fun c => !Text.isBlank c
  (Text.lowercase word, operands (Text.lowercase (Text.trim rest)))

namespace Statement

/-- The statement of an instruction whose immediate is read, or not readable. -/
def ofImmediate (op : Operation) : Except Problem UInt8 → Except Problem Statement
  | .ok imm => .ok ⟨Instruction.encode ⟨op, imm⟩, none⟩
  | .error problem => .error problem

/-- An instruction that takes a number. -/
def withNumber (op : Operation) (text : List Char) : Except Problem Statement :=
  ofImmediate op (number 15 text)

/-- An instruction that takes a register with an offset. -/
def withOffset (op : Operation) (offset : Option (List Char)) : Except Problem Statement :=
  ofImmediate op (offsetValue offset)

/-- A jump, to a number or to a label. -/
def jumpTo (op : Operation) (text : List Char) : Except Problem Statement :=
  match Value.read text with
  | .ok (.label name) => .ok ⟨Instruction.encode ⟨op, 0⟩, some name⟩
  | .ok (.number _) => withNumber op text
  | .error problem => .error problem

/-- Read the operands that follow a mnemonic. -/
def ofOperands (mnemonic : Mnemonic) (operands : List (List Char)) : Except Problem Statement :=
  match mnemonic, operands with
  | .data, [value] =>
    match number 255 value with
    | .ok byte => .ok ⟨byte, none⟩
    | .error problem => .error problem
  | .data, _ => .error .dataNeedsOneValue
  | .nop, [] => .ok ⟨0, none⟩
  | .add, [register, imm] =>
    if register = ['a'] then withNumber .addA imm
    else if register = ['b'] then withNumber .addB imm
    else .error (.badOperands .add)
  | .mov, [register, source] =>
    if register = ['a'] then
      match offsetOf? 'b' source with
      | some offset => withOffset .movAB offset
      | none => withNumber .movA source
    else if register = ['b'] then
      match offsetOf? 'a' source with
      | some offset => withOffset .movBA offset
      | none => withNumber .movB source
    else .error (.badOperands .mov)
  | .input, [register] =>
    match offsetOf? 'a' register, offsetOf? 'b' register with
    | some offset, _ => withOffset .inA offset
    | none, some offset => withOffset .inB offset
    | none, none => .error .inputNeedsRegister
  | .output, [source] =>
    match offsetOf? 'b' source with
    | some offset => withOffset .outB offset
    | none => withNumber .out source
  | .jnc, [target] => jumpTo .jnc target
  | .jmp, [target] => jumpTo .jmp target
  | _, _ => .error (.badOperands mnemonic)

/-- Read the text of a statement, which has no blanks at its ends and is not
empty. -/
def read (body : List Char) : Except Problem Statement :=
  let (word, operands) := parts body
  match Mnemonic.ofText? word with
  | some mnemonic => ofOperands mnemonic operands
  | none => .error (.unknownMnemonic word)

end Statement
end Assembly
end TD4
