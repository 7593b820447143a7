/-
Everything a host can ask of a machine.

A `Command` is one operation of the machine: a step, an instruction handed in
from outside, a limited run, a reset, or an edit of the registers or of the
ROM.  `Command.apply` carries it out and gives its answer, which for a few
commands is a number, and `Cpu.after` is the machine a whole history of
commands leaves behind.

A command that fails still gives a machine: a failing step has clocked the
carry latch, and a failing edit leaves everything as it was.
-/
import TD4.Cpu

namespace TD4

/-- A change that a host makes to the registers. -/
inductive Registers.Edit
  | a (x : UInt8)
  | b (x : UInt8)
  | input (x : UInt8)
  | output (x : UInt8)
  | pc (x : UInt8)
  /-- Set the carry flag and leave the latch alone. -/
  | carry (c : Bool)
  /-- Give the carry flag a fresh value, as the adder does. -/
  | freshCarry (c : Bool)
  /-- Clock the carry latch. -/
  | clock
  /-- Move the program counter on; the answer is where it was. -/
  | advance
  /-- Clear all registers. -/
  | clear
  deriving DecidableEq, Repr

/-- The registers after an edit. -/
def Registers.Edit.apply : Registers.Edit → Registers → Registers
  | .a x, r => r.setA x
  | .b x, r => r.setB x
  | .input x, r => r.setInput x
  | .output x, r => r.setOutput x
  | .pc x, r => r.setPc x
  | .carry c, r => r.setCarry c
  | .freshCarry c, r => r.captureCarry c
  | .clock, r => r.clockCarry
  | .advance, r => r.advancePc
  | .clear, _ => .zero

/-- The number an edit answers with, if any. -/
def Registers.Edit.answer : Registers.Edit → Registers → Option Nat
  | .advance, r => some r.pc.toNat
  | _, _ => none

/-- A change that a host makes to the ROM. -/
inductive Rom.Edit
  | write (addr : Nat) (byte : UInt8)
  /-- Replace the whole ROM by an image that fits. -/
  | load (image : List UInt8)
  /-- Fill the ROM with zeros. -/
  | clear
  deriving DecidableEq, Repr

/-- The ROM after an edit, or why the edit is refused. -/
def Rom.Edit.apply : Rom.Edit → Rom → Except Fault Rom
  | .write addr byte, rom => rom.write addr byte
  | .load image, _ => Rom.ofImageStrict image
  | .clear, _ => .ok .empty

namespace Cpu

/-- One operation of the machine. -/
inductive Command
  | step
  | execute (opcode operand : UInt8)
  | run (limit : UInt64)
  | reset
  | registers (edit : Registers.Edit)
  | rom (edit : Rom.Edit)
  deriving DecidableEq, Repr

/-- Carry out a command.  The answer is a fault, or the number the command
reports if it reports one. -/
def Command.apply : Command → Cpu → Except Fault (Option Nat) × Cpu
  | .step, cpu =>
    let (result, next) := cpu.step
    (result.map fun _ => none, next)
  | .execute opcode operand, cpu =>
    let (result, next) := cpu.execute opcode operand
    (result.map fun _ => none, next)
  | .run limit, cpu =>
    let (result, next) := cpu.runLimited limit
    (result.map fun n => some n.toNat, next)
  | .reset, cpu => (.ok none, cpu.reset)
  | .registers edit, cpu => (.ok (edit.answer cpu.regs), { cpu with regs := edit.apply cpu.regs })
  | .rom edit, cpu =>
    match edit.apply cpu.rom with
    | .ok next => (.ok none, { cpu with rom := next })
    | .error fault => (.error fault, cpu)

/-- The machine after a history of commands, whether they succeed or fail. -/
def after (cpu : Cpu) (history : List Command) : Cpu :=
  history.foldl (fun cpu command => (command.apply cpu).2) cpu

end Cpu
end TD4
