/-
What can go wrong in the machine.

A `Fault` ends a step, refuses an instruction or refuses an access to the ROM.
`Fault.message` is its wording; `Fault.isHalt` tells the normal end of a
program from the three genuine failures.
-/
import TD4.Text.Digits

namespace TD4

/-- Why an operation of the machine did not succeed. -/
inductive Fault
  /-- The opcode names no operation. -/
  | invalidOpcode (opcode : UInt8)
  /-- An operand handed in from outside does not fit in a nibble. -/
  | immediateOverflow (operand : UInt8)
  /-- An address or an image lies beyond the 16 bytes of the ROM. -/
  | romOverflow
  /-- The instruction jumps to its own address, which is how a program ends. -/
  | halted
  deriving DecidableEq, Repr

namespace Fault

/-- Reaching the halting jump is a normal end; every other fault is a failure. -/
def isHalt : Fault → Bool
  | halted => true
  | _ => false

/-- The wording of a fault; numbers are hexadecimal without padding. -/
def message : Fault → String
  | invalidOpcode opcode => "invalid opcode: " ++ String.ofList (Text.hexadecimal opcode.toNat)
  | immediateOverflow operand =>
    "immediate overflow: " ++ String.ofList (Text.hexadecimal operand.toNat)
  | romOverflow => "ROM overflow"
  | halted => "halt instruction detected"

end Fault
end TD4
