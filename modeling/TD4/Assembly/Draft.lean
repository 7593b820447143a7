/-
Two passes over a program text.

The first pass reads line after line into a `Draft`: the bytes so far, the
address of each label defined so far, and a fixup for each jump to a label,
whose address may not be known yet.  The second pass puts the addresses in.

* `Draft.addLines` is the first pass and `Draft.resolve` the second;
* `assemble` is both, and `assembleRom` puts the result into a ROM.

The first pass stops at the first line with a problem, and the second is only
reached if no line has one.
-/
import TD4.Assembly.SourceLine
import TD4.Assembly.Statement
import TD4.Rom

namespace TD4
namespace Assembly

/-- A byte whose low nibble waits for the address of a label. -/
structure Fixup where
  /-- Where the byte stands in the program. -/
  index : Nat
  label : List Char
  /-- The line of the jump. -/
  line : Nat
  deriving DecidableEq, Repr

/-- A program under construction. -/
structure Draft where
  /-- The bytes so far. -/
  code : List UInt8
  /-- The labels so far with their addresses. -/
  labels : List (List Char × Nat)
  fixups : List Fixup
  deriving DecidableEq, Repr

namespace Draft

/-- The draft before the first line. -/
def empty : Draft := ⟨[], [], []⟩

/-- The address of a label, if it is defined. -/
def address? (d : Draft) (name : List Char) : Option Nat := d.labels.lookup name

/-- Define a label at the end of the program so far. -/
def define (d : Draft) (name : List Char) : Except Problem Draft :=
  if !isIdentifier name then .error (.invalidLabel name)
  else if (d.address? name).isSome then .error (.labelDefinedTwice name)
  else .ok { d with labels := d.labels ++ [(name, d.code.length)] }

/-- The fixups that a statement on a line calls for. -/
def fixupsOf (d : Draft) (line : Nat) (statement : Statement) : List Fixup :=
  match statement.target with
  | some label => [⟨d.code.length, label, line⟩]
  | none => []

/-- Put the byte of a statement at the end of the program. -/
def emit (d : Draft) (line : Nat) (statement : Statement) : Except Problem Draft :=
  if d.code.length < Rom.size then
    .ok { d with
      code := d.code ++ [statement.byte]
      fixups := d.fixups ++ d.fixupsOf line statement }
  else .error .programTooLarge

/-- Define the label of a line, if it has one. -/
def addLabel (d : Draft) (source : SourceLine) : Except Problem Draft :=
  match source.label with
  | some name => d.define name
  | none => .ok d

/-- Read the statement of a line, if it has one, and put its byte at the end. -/
def addBody (d : Draft) (line : Nat) (source : SourceLine) : Except Problem Draft :=
  if source.emits then
    match Statement.read source.body with
    | .ok statement => d.emit line statement
    | .error problem => .error problem
  else .ok d

/-- Take in one line: first its label, then its statement. -/
def addLine (d : Draft) (line : Nat) (text : List Char) : Except Error Draft :=
  let source := SourceLine.ofText text
  match d.addLabel source with
  | .error problem => .error ⟨line, problem⟩
  | .ok labelled =>
    match labelled.addBody line source with
    | .error problem => .error ⟨line, problem⟩
    | .ok next => .ok next

/-- Take in lines, the first of which has a given number. -/
def addLines (d : Draft) : Nat → List (List Char) → Except Error Draft
  | _, [] => .ok d
  | line, text :: rest =>
    match d.addLine line text with
    | .error e => .error e
    | .ok next => next.addLines (line + 1) rest

/-- Put an address into the low nibble of a byte of the program. -/
def patch (code : List UInt8) (index address : Nat) : List UInt8 :=
  code.modify index fun byte => byte ||| UInt8.ofNat address

/-- The address that a fixup asks for.  It must be one of the 16 addresses of
the ROM: a label may stand after the last byte, but nothing can jump there. -/
def target (d : Draft) (fixup : Fixup) : Except Error Nat :=
  match d.address? fixup.label with
  | none => .error ⟨fixup.line, .undefinedLabel fixup.label⟩
  | some address =>
    if address < Rom.size then .ok address else .error ⟨fixup.line, .outOfRange address⟩

/-- Carry out fixups on bytes, in order. -/
def applyFixups (d : Draft) : List Fixup → List UInt8 → Except Error (List UInt8)
  | [], code => .ok code
  | fixup :: rest, code =>
    match d.target fixup with
    | .error e => .error e
    | .ok address => d.applyFixups rest (patch code fixup.index address)

/-- The finished program: every fixup carried out. -/
def resolve (d : Draft) : Except Error (List UInt8) := d.applyFixups d.fixups d.code

/-- The draft of a whole program text. -/
def ofSource (source : List Char) : Except Error Draft :=
  empty.addLines 1 (source.splitOn '\n')

end Draft

/-- The bytes of a program text, at most 16 of them. -/
def assemble (source : List Char) : Except Error (List UInt8) :=
  match Draft.ofSource source with
  | .ok draft => draft.resolve
  | .error e => .error e

/-- The ROM that holds a program. -/
def assembleRom (source : List Char) : Except Error Rom :=
  (assemble source).map Rom.ofImage

end Assembly
end TD4
