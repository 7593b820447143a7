/-
The machine and its engine.

A `Cpu` is the register file, the ROM, the outcome of the last step and the
count of successful steps.

* `execute` performs one opcode with its operand;
* `step` fetches the byte at the program counter, stops at a jump to its own
  address, and executes anything else;
* `steps` repeats `step` until it fails or a number of steps is taken, and
  `runLimited` is `steps` with its answer.

An operation that fails still has an effect (the carry latch is clocked before
an opcode is found to name nothing), so each of them returns the machine beside
its result.
-/
import TD4.Instruction
import TD4.Registers
import TD4.Rom

namespace TD4

/-- The outcome of the most recent step.  It is kept for whoever looks at the
machine; no step is refused because of it. -/
inductive Status
  /-- No step was taken since the last reset, or the last one succeeded. -/
  | ready
  /-- The last step met a jump to its own address. -/
  | halted
  /-- The last step met an opcode that names no operation. -/
  | errored
  deriving DecidableEq, Repr

namespace Registers

/-- The effect of an operation on the registers, the carry latch having been
clocked. -/
def perform (r : Registers) (op : Operation) (imm : UInt8) : Registers :=
  match op with
  | .addA =>
    let sum := Nibble.add r.a imm
    ((r.setA sum.1).captureCarry sum.2).advancePc
  | .movAB => (r.setA r.b).advancePc
  | .inA => (r.setA r.input).advancePc
  | .movA => (r.setA imm).advancePc
  | .movBA => (r.setB r.a).advancePc
  | .addB =>
    let sum := Nibble.add r.b imm
    ((r.setB sum.1).captureCarry sum.2).advancePc
  | .inB => (r.setB r.input).advancePc
  | .movB => (r.setB imm).advancePc
  | .outB =>
    let sum := Nibble.add r.b imm
    ((r.setOutput sum.1).captureCarry sum.2).advancePc
  | .out => (r.setOutput imm).advancePc
  | .jnc => if r.carry then r.advancePc else r.setPc imm
  | .jmp => r.setPc imm

end Registers

/-- The machine. -/
structure Cpu where
  regs : Registers
  rom : Rom
  /-- The outcome of the most recent step. -/
  status : Status
  /-- The number of successful steps since the last reset. -/
  cycles : UInt64
  deriving DecidableEq

namespace Cpu

/-- A fresh machine around a ROM. -/
def ofRom (rom : Rom) : Cpu := ⟨.zero, rom, .ready, 0⟩

/-- A fresh machine with an empty ROM. -/
def fresh : Cpu := ofRom .empty

/-- A fresh machine with an image in its ROM, padded or cut to 16 bytes. -/
def ofImage (image : List UInt8) : Cpu := ofRom (.ofImage image)

/-- Clear the registers, the status and the count.  The ROM stays. -/
def reset (cpu : Cpu) : Cpu := { cpu with regs := .zero, status := .ready, cycles := 0 }

/-- Execute an opcode with its operand.  An operand wider than a nibble is
refused before anything changes; an unused opcode is found only after the carry
latch has been clocked. -/
def execute (cpu : Cpu) (opcode operand : UInt8) : Except Fault Unit × Cpu :=
  if 0x0F < operand then
    (.error (.immediateOverflow operand), cpu)
  else
    let regs := cpu.regs.clockCarry
    match Operation.ofOpcode? opcode with
    | none => (.error (.invalidOpcode opcode), { cpu with regs })
    | some op => (.ok (), { cpu with regs := regs.perform op operand })

/-- Does a byte, fetched at an address, jump to that very address? -/
def isSelfJump (pc byte : UInt8) : Bool :=
  Instruction.split byte == (Operation.jmp.opcode, pc)

/-- Fetch and execute the instruction at the program counter. -/
def step (cpu : Cpu) : Except Fault Unit × Cpu :=
  let byte := cpu.rom.fetch cpu.regs.pc
  if isSelfJump cpu.regs.pc byte then
    (.error .halted, { cpu with status := .halted })
  else
    match cpu.execute (Instruction.split byte).1 (Instruction.split byte).2 with
    | (.ok (), next) => (.ok (), { next with status := .ready, cycles := next.cycles + 1 })
    | (.error fault, next) => (.error fault, { next with status := .errored })

/-- Step a number of times, or until a step fails. -/
def steps : Nat → Cpu → Except Fault Unit × Cpu
  | 0, cpu => (.ok (), cpu)
  | n + 1, cpu =>
    match cpu.step with
    | (.ok (), next) => steps n next
    | (.error fault, next) => (.error fault, next)

/-- Step up to a limit.  The answer is the limit if every step succeeded, and
otherwise the first fault. -/
def runLimited (cpu : Cpu) (limit : UInt64) : Except Fault UInt64 × Cpu :=
  match cpu.steps limit.toNat with
  | (.ok (), next) => (.ok limit, next)
  | (.error fault, next) => (.error fault, next)

/-- Did the last step meet the halting jump? -/
def isHalted (cpu : Cpu) : Bool := cpu.status == .halted

end Cpu
end TD4
