/-
Running a program step by step.

Each step that succeeds has a line with its address, its byte, its text and the
registers after it; the step that halts has a shorter one.  `traceFrom` takes
the steps and gives the lines, and `traceProgram` is the whole answer.
-/
import TD4.CommandLine.Response
import TD4.Listing

namespace TD4
namespace CommandLine

/-- The line of a step that succeeded: its address, its byte, its text, and the
registers after it. -/
def traceLine (pc byte : UInt8) (cpu : Cpu) : String :=
  inTwoZeros pc ++ ": " ++ String.ofList (Text.hexByte byte) ++ "  "
    ++ String.ofList (Text.padEnd 12 (Listing.disassemble byte))
    ++ " A=" ++ inTwo cpu.regs.a ++ " B=" ++ inTwo cpu.regs.b ++ " OUT=" ++ inTwo cpu.regs.output
    ++ " C=" ++ (if cpu.regs.carry then "1" else "0")

/-- The line of the step that halts. -/
def haltLine (pc byte : UInt8) : String :=
  inTwoZeros pc ++ ": " ++ String.ofList (Text.hexByte byte) ++ "  "
    ++ String.ofList (Listing.disassemble byte)

/-- How a trace ends. -/
inductive TraceEnd
  | halted
  | fault (pc : UInt8) (fault : Fault)
  /-- All steps were taken. -/
  | limit

/-- Take up to a number of steps.  The lines so far are given in reverse. -/
def traceFrom : Nat → List String → Cpu → List String × TraceEnd
  | 0, lines, _ => (lines.reverse, .limit)
  | n + 1, lines, cpu =>
    let pc := cpu.regs.pc
    let byte := cpu.rom.fetch pc
    match cpu.step with
    | (.ok (), next) => traceFrom n (traceLine pc byte next :: lines) next
    | (.error .halted, next) =>
      ((("✓ Halted after " ++ toString next.cycles.toNat ++ " steps")
        :: haltLine pc byte :: lines).reverse, .halted)
    | (.error fault, _) => (lines.reverse, .fault pc fault)

/-- Run a program and show every step. -/
def traceProgram (files : FileView) (program : List Char) (input : UInt8) (steps : UInt64) :
    Response :=
  loadOr files program [] fun rom =>
    let (lines, ending) := traceFrom steps.toNat [] (machine rom input)
    let lines := "━━━ Trace ━━━" :: lines
    match ending with
    | .halted => ⟨lines, .success⟩
    | .fault pc fault => .failed lines (faultComplaint pc fault)
    | .limit =>
      ⟨lines ++ ["⚠️  Reached step limit (" ++ toString steps.toNat
        ++ "). Use --steps to increase."], .success⟩

end CommandLine
end TD4
