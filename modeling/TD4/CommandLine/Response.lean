/-
What a command prints and how it ends.

A `Response` is worked out from a view of the files alone.  A command that ends
by saving an image has not saved it yet: `Response.report` completes the answer
once it is known how that went.

The parts that several commands share are here too: numbers in columns, loading
a program, the machine a program starts on, and the complaint about a fault.
-/
import TD4.CommandLine.Invocation
import TD4.Cpu
import TD4.Image

namespace TD4
namespace CommandLine

/-- How a command ends. -/
inductive Ending
  | success
  | failure (complaint : String)
  /-- The ROM is to be saved to a file. -/
  | save (path : List Char) (rom : Rom)

/-- What a command prints, line by line, and how it ends. -/
structure Response where
  lines : List String
  ending : Ending

/-- The whole of an answer. -/
structure Report where
  exitCode : Nat
  lines : List String
  /-- What is said apart from the lines, about a failure. -/
  complaint : Option String
  deriving DecidableEq, Repr

/-- An answer that consists in a failure. -/
def Response.failed (lines : List String) (complaint : String) : Response :=
  ⟨lines, .failure complaint⟩

/-- The report of a failure. -/
def Report.failed (lines : List String) (complaint : String) : Report :=
  ⟨1, lines, some ("❌ " ++ complaint)⟩

/-- The report of wrong usage. -/
def Report.usage : Report := ⟨2, [], none⟩

/-- The whole answer, given how saving went; this counts only where something
is to be saved. -/
def Response.report (response : Response) (saved : Except FileError Unit) : Report :=
  match response.ending with
  | .success => ⟨0, response.lines, none⟩
  | .failure complaint => .failed response.lines complaint
  | .save path _ =>
    match saved with
    | .ok () => ⟨0, response.lines ++ ["✓ Saved to " ++ String.ofList path], none⟩
    | .error e => .failed response.lines ("Failed to save image: I/O error: " ++ e.message)

/-! ### Numbers in columns -/

/-- A number in a column of two, with blanks. -/
def inTwo (b : UInt8) : String := String.ofList (Text.padStart 2 ' ' (Text.decimal b.toNat))

/-- A number in a column of two, with zeros. -/
def inTwoZeros (b : UInt8) : String := String.ofList (Text.padStart 2 '0' (Text.decimal b.toNat))

/-- A number in binary, in a column of four, with zeros. -/
def inFourBits (b : UInt8) : String := String.ofList (Text.padStart 4 '0' (Text.binary b.toNat))

/-! ### Programs -/

/-- Load the program of a command, or say that it does not load. -/
def loadOr (files : FileView) (program : List Char) (shown : List String)
    (use : Rom → Response) : Response :=
  match Image.loadProgram files program with
  | .error e => .failed shown ("Failed to load " ++ String.ofList program ++ ": " ++ e.message)
  | .ok rom => use rom

/-- The machine with a program in its ROM and a nibble on its input port. -/
def machine (rom : Rom) (input : UInt8) : Cpu :=
  { Cpu.ofRom rom with regs := Registers.zero.setInput input }

/-- The complaint about a fault at an address. -/
def faultComplaint (pc : UInt8) (fault : Fault) : String :=
  "CPU error at PC=" ++ toString pc.toNat ++ ": " ++ fault.message

end CommandLine
end TD4
