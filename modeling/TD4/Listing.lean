/-
Bytes as readable assembly.

* `disassemble` gives the text of one byte.  Every byte has one; an unused
  opcode reads as `nop`.
* `Listing.ofRom` is the listing of a whole ROM as lines, each with the address
  and the byte in a comment.  An unused opcode is written as raw data there, so
  that the listing assembles to the same ROM again.
-/
import TD4.Instruction
import TD4.Rom
import TD4.Text.Digits

namespace TD4

/-- The text in front of the immediate. -/
def Operation.text : Operation → List Char
  | .addA => "add a, ".toList
  | .movAB => "mov a, b".toList
  | .inA => "in a".toList
  | .movA => "mov a, ".toList
  | .movBA => "mov b, a".toList
  | .addB => "add b, ".toList
  | .inB => "in b".toList
  | .movB => "mov b, ".toList
  | .outB => "out b".toList
  | .out => "out ".toList
  | .jnc => "jnc ".toList
  | .jmp => "jmp ".toList

/-- Is the immediate an operand of its own?  Otherwise it is an offset on a
register name. -/
def Operation.takesOperand : Operation → Bool
  | .movAB | .inA | .movBA | .inB | .outB => false
  | _ => true

namespace Listing

/-- A text with an offset, which is left out when it is zero. -/
def withOffset (text : List Char) (offset : UInt8) : List Char :=
  if offset = 0 then text else text ++ '+' :: Text.decimal offset.toNat

/-- The text of one byte.  Zero is `nop`. -/
def disassemble (byte : UInt8) : List Char :=
  if byte = 0 then "nop".toList
  else
    let (opcode, imm) := Instruction.split byte
    match Operation.ofOpcode? opcode with
    | none => withOffset "nop".toList imm
    | some op =>
      if op.takesOperand then op.text ++ Text.decimal imm.toNat else withOffset op.text imm

/-- The statement that assembles to a byte: its text, or raw data where the
opcode is unused. -/
def statement (byte : UInt8) : List Char :=
  match Instruction.decode byte with
  | .ok _ => disassemble byte
  | .error _ => "db 0x".toList ++ Text.hexByte byte

/-- The line for one address. -/
def line (addr : Nat) (byte : UInt8) : List Char :=
  "    ".toList ++ Text.padEnd 12 (statement byte) ++ " ; ".toList
    ++ Text.padStart 2 '0' (Text.decimal addr) ++ ": ".toList ++ Text.hexByte byte

/-- The three lines above the first address. -/
def header : List (List Char) :=
  ["; TD4 Disassembly".toList, "; ---------------".toList, []]

/-- The lines of the listing of a ROM. -/
def ofRom (rom : Rom) : List (List Char) :=
  header ++ rom.entries.map fun (addr, byte) => line addr byte

/-- The listing of a ROM as a text; every line ends with a line break. -/
def text (rom : Rom) : List Char :=
  (ofRom rom).flatMap fun line => line ++ ['\n']

end Listing
end TD4
