/-
The register file.

Two general registers, the input and the output port, the carry flag with its
latch, and the program counter.  Every value is a nibble in an eight-bit cell;
the setters mask their argument.

The carry is visible for one instruction after the one that raised it: raising
it opens the latch (`captureCarry`), the next clock closes it, and the clock
after that drops the carry (`clockCarry`).
-/
import TD4.Nibble

namespace TD4

/-- The registers, the ports, the carry flag with its latch and the program
counter. -/
structure Registers where
  a : UInt8
  b : UInt8
  /-- The nibble on the input port. -/
  input : UInt8
  /-- The nibble on the output port. -/
  output : UInt8
  carry : Bool
  /-- Set once a raised carry has been clocked; the next clock drops the carry. -/
  latch : Bool
  /-- The program counter. -/
  pc : UInt8
  deriving DecidableEq, Repr

namespace Registers

/-- All registers zero, carry and latch clear. -/
def zero : Registers := ⟨0, 0, 0, 0, false, false, 0⟩

def setA (r : Registers) (x : UInt8) : Registers := { r with a := Nibble.low x }

def setB (r : Registers) (x : UInt8) : Registers := { r with b := Nibble.low x }

def setInput (r : Registers) (x : UInt8) : Registers := { r with input := Nibble.low x }

def setOutput (r : Registers) (x : UInt8) : Registers := { r with output := Nibble.low x }

def setPc (r : Registers) (x : UInt8) : Registers := { r with pc := Nibble.low x }

/-- Set the carry flag by hand.  The latch is left as it is. -/
def setCarry (r : Registers) (c : Bool) : Registers := { r with carry := c }

/-- Take a fresh carry from the adder.  It gets its full time: a latch left
from an earlier carry is opened. -/
def captureCarry (r : Registers) (c : Bool) : Registers := { r with carry := c, latch := false }

/-- Clock the carry latch once: a raised carry that was clocked before is
dropped, one that was not is marked. -/
def clockCarry (r : Registers) : Registers :=
  if r.carry then
    if r.latch then { r with carry := false, latch := false } else { r with latch := true }
  else r

/-- Move the program counter to the next address; after 15 comes 0. -/
def advancePc (r : Registers) : Registers := { r with pc := Nibble.low (r.pc + 1) }

end Registers
end TD4
