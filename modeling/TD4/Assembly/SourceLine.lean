/-
The parts of a line of a program text.

A line may define a label, in front of its first colon, and may hold a
statement; a semicolon begins a comment.  `SourceLine.ofText` cuts a line into
these parts and does not look into them.  A line that holds a statement is one
that puts a byte into the program (`SourceLine.emits`).
-/
import TD4.Text.Blank
import TD4.Text.Lowercase

namespace TD4
namespace Assembly

/-- The parts of a line. -/
structure SourceLine where
  /-- What stands before the first colon, in lower case. -/
  label : Option (List Char)
  /-- The text of the statement, empty if there is none. -/
  body : List Char
  deriving DecidableEq, Repr

namespace SourceLine

/-- Does the line put a byte into the program? -/
def emits (line : SourceLine) : Bool := !line.body.isEmpty

/-- The text of a line before its comment, without blanks at the ends. -/
def code (text : List Char) : List Char := Text.trim (text.takeWhile fun c => c != ';')

/-- Cut the code of a line at its first colon. -/
def ofCode (code : List Char) : SourceLine :=
  match code.dropWhile fun c => c != ':' with
  | [] => ⟨none, code⟩
  | _ :: rest =>
    ⟨some (Text.lowercase (Text.trim (code.takeWhile fun c => c != ':'))), Text.trim rest⟩

/-- Cut a line into its parts. -/
def ofText (text : List Char) : SourceLine := ofCode (code text)

end SourceLine
end Assembly
end TD4
