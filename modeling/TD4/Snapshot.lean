/-
The machine and its parts as JSON.

Each type has `toJson`, which writes its fields under their names in a fixed
order, and `ofJson?`, which reads them back.  Reading takes values as they are:
a register read from JSON may hold more than a nibble.

The outcome of a step is written as its name, and may also be read from an
object with that name and no value.  An instruction is an object with the name
of the operation and the immediate.
-/
import TD4.Cpu
import TD4.Json.Layout
import TD4.Json.Record

namespace TD4

/-! ### Registers -/

namespace Registers

/-- The names of the registers in JSON. -/
def fieldNames : List (List Char) :=
  ["a".toList, "b".toList, "input".toList, "output".toList, "carry".toList,
    "carry_drop".toList, "pc".toList]

/-- The registers in the order of their names. -/
def toFields (r : Registers) : List Json :=
  [.ofByte r.a, .ofByte r.b, .ofByte r.input, .ofByte r.output, .bool r.carry, .bool r.latch,
    .ofByte r.pc]

def ofFields? : List Json → Option Registers
  | [a, b, input, output, carry, latch, pc] => do
    some ⟨← a.byte?, ← b.byte?, ← input.byte?, ← output.byte?, ← carry.flag?, ← latch.flag?,
      ← pc.byte?⟩
  | _ => none

def toJson (r : Registers) : Json :=
  .object (List.zipWith Json.member fieldNames r.toFields)

def ofJson? (value : Json) : Option Registers := (value.allFields? fieldNames).bind ofFields?

end Registers

/-! ### The ROM -/

namespace Rom

/-- The name of the bytes in JSON. -/
def fieldNames : List (List Char) := ["bytes".toList]

/-- The ROM with exactly the given bytes. -/
def ofBytes? (bytes : List UInt8) : Option Rom :=
  if h : bytes.length = 16 then some ⟨⟨bytes.toArray, by simpa using h⟩⟩ else none

/-- The ROM from the array of its bytes. -/
def ofItems? : Json → Option Rom
  | .array items => (items.mapM Json.byte?).bind ofBytes?
  | _ => none

def toJson (rom : Rom) : Json :=
  .object (List.zipWith Json.member fieldNames [.array (rom.bytes.map Json.ofByte)])

def ofJson? (value : Json) : Option Rom :=
  match value.allFields? fieldNames with
  | some [bytes] => ofItems? bytes
  | _ => none

end Rom

/-! ### The outcome of a step -/

namespace Status

/-- The name of an outcome. -/
def name : Status → List Char
  | ready => "Ready".toList
  | halted => "Halted".toList
  | errored => "Errored".toList

def ofName? (text : List Char) : Option Status :=
  [ready, halted, errored].find? fun s => s.name == text

def toJson (status : Status) : Json := .text status.name

def ofJson? : Json → Option Status
  | .string text => (Json.decode text).bind ofName?
  | .object [(text, .null)] => (Json.decode text).bind ofName?
  | _ => none

end Status

/-! ### The machine -/

namespace Cpu

/-- The names of the parts of the machine in JSON. -/
def fieldNames : List (List Char) :=
  ["regs".toList, "rom".toList, "state".toList, "cycles".toList]

def toFields (cpu : Cpu) : List Json :=
  [cpu.regs.toJson, cpu.rom.toJson, cpu.status.toJson, .ofWord cpu.cycles]

def ofFields? : List Json → Option Cpu
  | [regs, rom, status, cycles] => do
    some ⟨← Registers.ofJson? regs, ← Rom.ofJson? rom, ← Status.ofJson? status, ← cycles.word?⟩
  | _ => none

def toJson (cpu : Cpu) : Json :=
  .object (List.zipWith Json.member fieldNames cpu.toFields)

def ofJson? (value : Json) : Option Cpu := (value.allFields? fieldNames).bind ofFields?

end Cpu

/-! ### Instructions -/

namespace Operation

/-- All operations. -/
def all : List Operation :=
  [addA, addB, movA, movB, movAB, movBA, inA, inB, outB, out, jnc, jmp]

/-- The name of an operation. -/
def name : Operation → List Char
  | addA => "AddA".toList
  | addB => "AddB".toList
  | movA => "MovA".toList
  | movB => "MovB".toList
  | movAB => "MovAB".toList
  | movBA => "MovBA".toList
  | inA => "InA".toList
  | inB => "InB".toList
  | outB => "OutB".toList
  | out => "Out".toList
  | jnc => "Jnc".toList
  | jmp => "Jmp".toList

def ofName? (text : List Char) : Option Operation := all.find? fun op => op.name == text

end Operation

namespace Instruction

def toJson (i : Instruction) : Json :=
  .object [Json.member i.operation.name (.ofByte i.immediate)]

def ofJson? : Json → Option Instruction
  | .object [(text, value)] => do
    let operation ← Operation.ofName? (← Json.decode text)
    some ⟨operation, ← value.byte?⟩
  | _ => none

end Instruction

end TD4
