/-
Texts that the assembler does not tell apart.

The first pass takes in a line by its label and its statement only.  Lines that
agree in these are read alike (`SourceLine.Alike`), and texts whose lines are
read alike one by one assemble to the same result (`assembleLines_of_readAlike`).

Letter case is the first use of this: texts that differ in the case of ASCII
letters assemble to the same result, errors and their wording included
(`assemble_of_sameLetters`).
-/
import TD4.Proofs.Assembly.PlainLine
import TD4.Proofs.Text.LetterCase
import Mathlib.Data.List.Forall2

namespace TD4
namespace Assembly

open Text

/-! ### Lines that are read alike -/

/-- Two lines with the same label and the same statement, or both without. -/
structure SourceLine.Alike (line other : SourceLine) : Prop where
  label : other.label = line.label
  emits : other.emits = line.emits
  read : Statement.read other.body = Statement.read line.body

/-- Line by line, two texts are read alike. -/
def ReadAlike (texts others : List (List Char)) : Prop :=
  List.Forall₂ (fun text other => (SourceLine.ofText text).Alike (SourceLine.ofText other))
    texts others

namespace Draft

theorem addLine_of_alike {text other : List Char}
    (h : (SourceLine.ofText text).Alike (SourceLine.ofText other)) (d : Draft) (number : Nat) :
    d.addLine number other = d.addLine number text := by
  have hlabel : d.addLabel (SourceLine.ofText other) = d.addLabel (SourceLine.ofText text) := by
    rw [addLabel, addLabel, h.label]
  have hbody : ∀ labelled : Draft, labelled.addBody number (SourceLine.ofText other)
      = labelled.addBody number (SourceLine.ofText text) := by
    intro labelled
    rw [addBody, addBody, h.emits, h.read]
  simp only [addLine, hlabel, hbody]

theorem addLines_of_readAlike {texts others : List (List Char)} (h : ReadAlike texts others) :
    ∀ (d : Draft) (number : Nat), d.addLines number others = d.addLines number texts := by
  induction h with
  | nil =>
    intro d number
    rfl
  | cons hline _ ih =>
    intro d number
    rw [addLines, addLines, addLine_of_alike hline]
    simp only [ih]

end Draft

/-- The bytes of a program that is given line by line. -/
def assembleLines (lines : List (List Char)) : Except Error (List UInt8) :=
  match Draft.empty.addLines 1 lines with
  | .ok draft => draft.resolve
  | .error e => .error e

theorem assemble_eq_assembleLines (source : List Char) :
    assemble source = assembleLines (source.splitOn '\n') := rfl

theorem readAlike_of_map_eq {texts others : List (List Char)}
    (h : others.map SourceLine.ofText = texts.map SourceLine.ofText) : ReadAlike texts others := by
  have hparts : List.Forall₂ (· = ·) (texts.map SourceLine.ofText)
      (others.map SourceLine.ofText) := by
    rw [List.forall₂_eq_eq_eq, h]
  rw [List.forall₂_map_left_iff, List.forall₂_map_right_iff] at hparts
  refine hparts.imp fun text other hsame => ?_
  rw [← hsame]
  exact ⟨rfl, rfl, rfl⟩

theorem assembleLines_of_readAlike {texts others : List (List Char)} (h : ReadAlike texts others) :
    assembleLines others = assembleLines texts := by
  rw [assembleLines, assembleLines, Draft.addLines_of_readAlike h]

/-! ### Letter case -/

theorem SourceLine.code_map_toLower (text : List Char) :
    code (text.map Char.toLower) = (code text).map Char.toLower := by
  have hsemicolon : ∀ c : Char, (c.toLower != ';') = (c != ';') :=
    apply_toLower (f := fun c => c != ';') (by decide)
  rw [code, takeWhile_map_toLower hsemicolon, trim_map_toLower]
  rfl

/-- A lowered line has the same label and its statement lowered. -/
theorem SourceLine.ofText_map_toLower (text : List Char) :
    ofText (text.map Char.toLower)
      = ⟨(ofText text).label, (ofText text).body.map Char.toLower⟩ := by
  have hcolon : ∀ c : Char, (c.toLower != ':') = (c != ':') :=
    apply_toLower (f := fun c => c != ':') (by decide)
  rw [ofText, ofText, code_map_toLower, ofCode, ofCode, dropWhile_map_toLower hcolon,
    takeWhile_map_toLower hcolon]
  rcases (code text).dropWhile fun c => c != ':' with _ | ⟨_, rest⟩
  · rfl
  · simp only [List.map_cons, trim_map_toLower, lowercase_map_toLower]

theorem parts_map_toLower (body : List Char) : parts (body.map Char.toLower) = parts body := by
  have hblank : ∀ c : Char, (!isBlank c.toLower) = !isBlank c := fun c =>
    congrArg not (isBlank_toLower c)
  rw [parts, takeWhile_map_toLower hblank, dropWhile_map_toLower hblank, trim_map_toLower,
    lowercase_map_toLower, lowercase_map_toLower]
  rfl

theorem SourceLine.alike_map_toLower (text : List Char) :
    (ofText text).Alike (ofText (text.map Char.toLower)) := by
  rw [ofText_map_toLower]
  refine ⟨rfl, ?_, ?_⟩
  · rw [emits, emits, List.isEmpty_map]
  · rw [Statement.read, parts_map_toLower]
    rfl

/-- Lowering the ASCII letters of a program text changes nothing. -/
theorem assemble_map_toLower (source : List Char) :
    assemble (source.map Char.toLower) = assemble source := by
  have hbreak : ∀ c : Char, (c.toLower == '\n') = (c == '\n') :=
    apply_toLower (f := fun c => c == '\n') (by decide)
  rw [assemble_eq_assembleLines, assemble_eq_assembleLines, splitOn_map hbreak]
  refine assembleLines_of_readAlike ?_
  rw [ReadAlike, List.forall₂_map_right_iff]
  exact List.forall₂_same.mpr fun text _ => SourceLine.alike_map_toLower text

/-- **Letter case does not matter.**  Not only a program is the same, but also an
error, its line and its wording. -/
theorem assemble_of_sameLetters {source other : List Char} (h : SameLetters source other) :
    assemble other = assemble source := by
  rw [← assemble_map_toLower other, h.map_toLower_eq, assemble_map_toLower]

/-- A label used in another case than it is defined in, and an error behind it. -/
theorem assemble_of_sameLetters_swapped :
    SameLetters "Loop: JMP loop\nADD a, 0Xff ; To the END".toList
        "lOOP: jmp LOOP\nadd A, 0xFF ; tO THE end".toList ∧
      assemble "Loop: JMP loop\nADD a, 0Xff ; To the END".toList = .error ⟨2, .outOfRange 255⟩ ∧
      assemble "lOOP: jmp LOOP\nadd A, 0xFF ; tO THE end".toList = .error ⟨2, .outOfRange 255⟩ := by
  have hsame : SameLetters "Loop: JMP loop\nADD a, 0Xff ; To the END".toList
      "lOOP: jmp LOOP\nadd A, 0xFF ; tO THE end".toList := by decide
  have herror : assemble "Loop: JMP loop\nADD a, 0Xff ; To the END".toList
      = .error ⟨2, .outOfRange 255⟩ := by decide
  exact ⟨hsame, herror, (assemble_of_sameLetters hsame).trans herror⟩

end Assembly
end TD4
