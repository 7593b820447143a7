/-
The machine and its parts as text for people.

* `Instruction.dump` and `Rom.dump` are on one line;
* `Cpu.dump` is on one line, `Cpu.dumpLines` gives each field a line of its
  own, the ROM staying on one.
-/
import TD4.Snapshot

namespace TD4
namespace Dump

/-- A named group of fields on one line. -/
def onOneLine (name : String) (fields : List (String × String)) : String :=
  name ++ " \x7b " ++ ", ".intercalate (fields.map fun f => f.1 ++ ": " ++ f.2) ++ " \x7d"

/-- A named group of fields on lines of their own, inside a text with an indent. -/
def onLines (indent : Nat) (name : String) (fields : List (String × String)) : String :=
  let margin := String.ofList (List.replicate indent ' ')
  let lines := fields.map fun f => margin ++ "    " ++ f.1 ++ ": " ++ f.2 ++ ",\n"
  name ++ " \x7b\n" ++ String.join lines ++ margin ++ "\x7d"

end Dump

/-- An instruction with its immediate in parentheses. -/
def Instruction.dump (i : Instruction) : String :=
  String.ofList i.operation.name ++ "(" ++ toString i.immediate.toNat ++ ")"

/-- The bytes in hexadecimal. -/
def Rom.dump (rom : Rom) : String :=
  "Rom[" ++ " ".intercalate (rom.bytes.map fun b => String.ofList (Text.hexByte b)) ++ "]"

/-- The registers with their names. -/
def Registers.dumpFields (r : Registers) : List (String × String) :=
  [("a", toString r.a.toNat), ("b", toString r.b.toNat), ("input", toString r.input.toNat),
    ("output", toString r.output.toNat), ("carry", toString r.carry),
    ("carry_drop", toString r.latch), ("pc", toString r.pc.toNat)]

/-- The parts of the machine with their names, the registers as given. -/
def Cpu.dumpFields (cpu : Cpu) (regs : String) : List (String × String) :=
  [("state", String.ofList cpu.status.name), ("cycles", toString cpu.cycles.toNat),
    ("regs", regs), ("rom", cpu.rom.dump)]

/-- The machine on one line. -/
def Cpu.dump (cpu : Cpu) : String :=
  Dump.onOneLine "Cpu" (cpu.dumpFields (Dump.onOneLine "Registers" cpu.regs.dumpFields))

/-- The machine with a line for each field. -/
def Cpu.dumpLines (cpu : Cpu) : String :=
  Dump.onLines 0 "Cpu" (cpu.dumpFields (Dump.onLines 4 "Registers" cpu.regs.dumpFields))

end TD4
