/-
The layout of a program text.

White space around a line, comments and lines that hold nothing belong to the
layout of a text.  `Relaid` lists the changes of layout, each with what it does to
the numbers of the lines, and `assemble_of_relaid` is the main statement: a
change of layout changes no byte and no problem, and an error stays on its line.

* Changes within a line leave its label and its statement as they are, so the
  lines are read alike (`SourceLine.ofText_blanks_append` and its neighbours).
* A new line moves the lines behind it.  Line numbers go into the fixups and the
  errors and nowhere else, so both passes carry a renumbering of the lines along
  (`Draft.addLines_renumber`, `Draft.resolve_renumber`).
-/
import TD4.Proofs.Assembly.Appearance
import TD4.Proofs.Assembly.Grammar

namespace TD4
namespace Assembly

open Text

/-! ### The layout of a line -/

namespace SourceLine

variable {blanks text : List Char}

theorem ofText_blanks_append (h : Blanks blanks) (text : List Char) :
    ofText (blanks ++ text) = ofText text := by
  rw [ofText, ofText, code_append_of_not_mem (semicolon_not_mem h),
    trim_blanks_append h]
  rfl

theorem ofText_append_blanks (h : Blanks blanks) (text : List Char) :
    ofText (text ++ blanks) = ofText text := by
  rw [ofText, ofText]
  by_cases hcomment : ';' ∈ text
  · rw [code_append_of_mem hcomment]
  · -- no comment: the blanks are at the end of the code
    rw [code_append_of_not_mem hcomment, code_plain hcomment, List.takeWhile_eq_self_iff.mpr
      (semicolon_bne (semicolon_not_mem h)), trim_append_blanks h]

theorem ofText_append_comment (text comment : List Char) :
    ofText (text ++ ';' :: comment) = ofText text := by
  rw [ofText, ofText]
  by_cases hcomment : ';' ∈ text
  · rw [code_append_of_mem hcomment]
  · rw [code_comment hcomment, code_plain hcomment]

/-- A line that holds nothing: white space, and perhaps a comment. -/
inductive Idle : List Char → Prop
  | blank {blanks : List Char} (hblanks : Blanks blanks) : Idle blanks
  | comment {blanks : List Char} (hblanks : Blanks blanks) (comment : List Char) :
      Idle (blanks ++ ';' :: comment)

theorem ofText_idle (h : Idle text) : ofText text = ⟨none, []⟩ := by
  have hblank : ∀ {blanks : List Char}, Blanks blanks → ofText blanks = ⟨none, []⟩ := by
    intro blanks hblanks
    have hempty : ofText (blanks ++ []) = ofText [] := ofText_blanks_append hblanks []
    rwa [List.append_nil] at hempty
  cases h with
  | blank hblanks => exact hblank hblanks
  | comment hblanks comment => rw [ofText_append_comment, hblank hblanks]

end SourceLine

/-! ### Other numbers for the lines -/

/-- An error on the line with another number. -/
def Error.renumber (number : Nat → Nat) (e : Error) : Error := { e with line := number e.line }

/-- A fixup of a jump on the line with another number. -/
def Fixup.renumber (number : Nat → Nat) (fixup : Fixup) : Fixup :=
  { fixup with line := number fixup.line }

namespace Draft

/-- A draft whose fixups stand on lines with other numbers. -/
def renumber (number : Nat → Nat) (d : Draft) : Draft :=
  { d with fixups := d.fixups.map (Fixup.renumber number) }

/-- An outcome of the first pass over lines with other numbers. -/
def renumbered (number : Nat → Nat) : Except Error Draft → Except Error Draft
  | .ok d => .ok (d.renumber number)
  | .error e => .error (e.renumber number)

variable {number : Nat → Nat} {d : Draft}

@[simp] theorem code_renumber : (d.renumber number).code = d.code := rfl

@[simp] theorem address?_renumber (name : List Char) :
    (d.renumber number).address? name = d.address? name := rfl

theorem addLabel_renumber (source : SourceLine) :
    (d.renumber number).addLabel source = (d.addLabel source).map (renumber number) := by
  rw [addLabel, addLabel]
  rcases source.label with _ | name
  · rfl
  · simp only [define, address?_renumber]
    by_cases hname : isIdentifier name = true
    · by_cases hold : (d.address? name).isSome = true
      · simp [hname, hold, Except.map]
      · simp [hname, hold, Except.map, renumber]
    · simp [hname, Except.map]

theorem fixupsOf_renumber (line : Nat) (s : Statement) :
    (d.renumber number).fixupsOf (number line) s
      = (d.fixupsOf line s).map (Fixup.renumber number) := by
  rw [fixupsOf, fixupsOf]
  rcases s.target with _ | name <;> rfl

theorem emit_renumber (line : Nat) (s : Statement) :
    (d.renumber number).emit (number line) s = (d.emit line s).map (renumber number) := by
  rw [emit, emit, fixupsOf_renumber, code_renumber]
  by_cases hroom : d.code.length < Rom.size
  · simp [hroom, Except.map, renumber]
  · simp [hroom, Except.map]

theorem addBody_renumber (line : Nat) (source : SourceLine) :
    (d.renumber number).addBody (number line) source
      = (d.addBody line source).map (renumber number) := by
  rw [addBody, addBody]
  split
  · rcases Statement.read source.body with problem | s
    · rfl
    · exact emit_renumber line s
  · rfl

theorem addLine_renumber (line : Nat) (text : List Char) :
    (d.renumber number).addLine (number line) text = renumbered number (d.addLine line text) := by
  simp only [addLine, addLabel_renumber]
  rcases d.addLabel (SourceLine.ofText text) with problem | labelled
  · rfl
  · simp only [Except.map, addBody_renumber]
    rcases labelled.addBody line (SourceLine.ofText text) with problem | next
    · rfl
    · rfl

/-- The first pass over lines whose numbers are renamed one by one. -/
theorem addLines_renumber {texts : List (List Char)} :
    ∀ {d : Draft} {line other : Nat}, (∀ i < texts.length, number (line + i) = other + i) →
      (d.renumber number).addLines other texts = renumbered number (d.addLines line texts) := by
  induction texts with
  | nil =>
    intro d line other _
    rfl
  | cons text rest ih =>
    intro d line other h
    have hfirst : number line = other := h 0 (Nat.succ_pos _)
    have hrest : ∀ i < rest.length, number (line + 1 + i) = other + 1 + i := by
      intro i hi
      have := h (i + 1) (Nat.succ_lt_succ hi)
      rwa [Nat.add_assoc line, Nat.add_assoc other, Nat.add_comm 1 i]
    rw [addLines, addLines, ← hfirst, addLine_renumber]
    rcases d.addLine line text with e | next
    · rfl
    · rw [← hfirst] at hrest
      exact ih hrest

theorem target_renumber (fixup : Fixup) :
    (d.renumber number).target (fixup.renumber number)
      = (d.target fixup).mapError (Error.renumber number) := by
  have hlabel : (fixup.renumber number).label = fixup.label := rfl
  rw [target, target, address?_renumber, hlabel]
  rcases d.address? fixup.label with _ | address
  · rfl
  · by_cases hlt : address < Rom.size
    · simp [hlt, Except.mapError]
    · simp [hlt, Except.mapError, Error.renumber, Fixup.renumber]

theorem applyFixups_renumber (fixups : List Fixup) (code : List UInt8) :
    (d.renumber number).applyFixups
        (fixups.map (Fixup.renumber number)) code
      = (d.applyFixups fixups code).mapError (Error.renumber number) := by
  induction fixups generalizing code with
  | nil => rfl
  | cons fixup rest ih =>
    rw [List.map_cons, applyFixups, applyFixups, target_renumber]
    rcases d.target fixup with e | address
    · rfl
    · exact ih _

theorem resolve_renumber :
    (d.renumber number).resolve = d.resolve.mapError (Error.renumber number) :=
  applyFixups_renumber d.fixups d.code

end Draft

/-- The numbers of the lines once a line has been put in behind the first `k`:
lines are counted from 1. -/
def movedFrom (k line : Nat) : Nat := if line ≤ k then line else line + 1

/-- A line that holds nothing only moves the lines behind it. -/
theorem assembleLines_insert {line : List Char} (h : SourceLine.Idle line)
    (front back : List (List Char)) :
    assembleLines (front ++ line :: back)
      = (assembleLines (front ++ back)).mapError (Error.renumber (movedFrom front.length)) := by
  have hfront : Draft.empty.addLines 1 front
      = Draft.renumbered (movedFrom front.length) (Draft.empty.addLines 1 front) := by
    refine Draft.addLines_renumber (d := Draft.empty) fun i hi => ?_
    exact if_pos (by omega)
  rw [assembleLines, assembleLines, Draft.addLines_append, Draft.addLines_append]
  rcases hpass : Draft.empty.addLines 1 front with e | d
  · rw [hpass] at hfront
    exact congrArg Except.error (Except.error.inj hfront)
  · rw [hpass] at hfront
    have hd : d = d.renumber (movedFrom front.length) := Except.ok.inj hfront
    have hback : d.addLines (1 + front.length + 1) back
        = Draft.renumbered (movedFrom front.length) (d.addLines (1 + front.length) back) := by
      conv_lhs => rw [hd]
      refine Draft.addLines_renumber fun i _ => ?_
      rw [movedFrom, if_neg (by omega)]
      omega
    simp only [Draft.addLines, Draft.addLine_blank (SourceLine.ofText_idle h), hback]
    rcases d.addLines (1 + front.length) back with e | next
    · rfl
    · exact Draft.resolve_renumber

/-! ### Layout -/

/-- The lines of a text in another layout.  The function gives each line its new
number. -/
inductive Relaid : (Nat → Nat) → List (List Char) → List (List Char) → Prop
  | refl (lines : List (List Char)) : Relaid id lines lines
  | trans {f g : Nat → Nat} {lines others more : List (List Char)} (hfirst : Relaid f lines others)
      (hsecond : Relaid g others more) : Relaid (g ∘ f) lines more
  /-- A line that holds nothing is put in. -/
  | insert {line : List Char} (hidle : SourceLine.Idle line) (front back : List (List Char)) :
      Relaid (movedFrom front.length) (front ++ back) (front ++ line :: back)
  /-- White space is put in front of a line. -/
  | indent {blanks : List Char} (hblanks : Blanks blanks) (front : List (List Char))
      (line : List Char) (back : List (List Char)) :
      Relaid id (front ++ line :: back) (front ++ (blanks ++ line) :: back)
  /-- White space is put behind a line. -/
  | trail {blanks : List Char} (hblanks : Blanks blanks) (front : List (List Char))
      (line : List Char) (back : List (List Char)) :
      Relaid id (front ++ line :: back) (front ++ (line ++ blanks) :: back)
  /-- A comment is put behind a line. -/
  | comment (comment : List Char) (front : List (List Char)) (line : List Char)
      (back : List (List Char)) :
      Relaid id (front ++ line :: back) (front ++ (line ++ ';' :: comment) :: back)
  /-- A carriage return is put in front of a line feed. -/
  | carriageReturn (front : List (List Char)) (line next : List Char) (back : List (List Char)) :
      Relaid id (front ++ line :: next :: back) (front ++ (line ++ ['\r']) :: next :: back)

/-- What a change of layout keeps: the outcome but for the numbers of the lines,
and what each line says. -/
structure SameProgram (number : Nat → Nat) (lines others : List (List Char)) : Prop where
  outcome : assembleLines others = (assembleLines lines).mapError (Error.renumber number)
  line : ∀ i line, lines[i]? = some line → ∃ j moved, number (i + 1) = j + 1 ∧
    others[j]? = some moved ∧ SourceLine.ofText moved = SourceLine.ofText line

namespace SameProgram

variable {f g : Nat → Nat} {lines others more : List (List Char)}

theorem of_map_eq (h : others.map SourceLine.ofText = lines.map SourceLine.ofText) :
    SameProgram id lines others where
  outcome := by
    rw [assembleLines_of_readAlike (readAlike_of_map_eq h)]
    rcases assembleLines lines with e | bytes <;> rfl
  line i line hline := by
    have hget : (others.map SourceLine.ofText)[i]? = some (SourceLine.ofText line) := by
      rw [h, List.getElem?_map, hline, Option.map_some]
    rw [List.getElem?_map, Option.map_eq_some_iff] at hget
    obtain ⟨moved, hmoved, hsame⟩ := hget
    exact ⟨i, moved, rfl, hmoved, hsame⟩

theorem trans (hfirst : SameProgram f lines others) (hsecond : SameProgram g others more) :
    SameProgram (g ∘ f) lines more where
  outcome := by
    rw [hsecond.outcome, hfirst.outcome]
    rcases assembleLines lines with e | bytes <;> rfl
  line i line hline := by
    obtain ⟨j, moved, hj, hmoved, hsame⟩ := hfirst.line i line hline
    obtain ⟨k, last, hk, hlast, hagain⟩ := hsecond.line j moved hmoved
    exact ⟨k, last, (congrArg g hj).trans hk, hlast, hagain.trans hsame⟩

theorem insert {text : List Char} (h : SourceLine.Idle text) (front back : List (List Char)) :
    SameProgram (movedFrom front.length) (front ++ back) (front ++ text :: back) where
  outcome := assembleLines_insert h front back
  line i line hline := by
    by_cases hi : i < front.length
    · refine ⟨i, line, if_pos hi, ?_, rfl⟩
      rwa [List.getElem?_append_left hi] at hline ⊢
    · have hge : front.length ≤ i := Nat.not_lt.mp hi
      refine ⟨i + 1, line, if_neg hi, ?_, rfl⟩
      rw [List.getElem?_append_right hge] at hline
      rwa [List.getElem?_append_right (Nat.le_succ_of_le hge), Nat.succ_sub hge,
        List.getElem?_cons_succ]

end SameProgram

theorem Relaid.sameProgram {number : Nat → Nat} {lines others : List (List Char)}
    (h : Relaid number lines others) : SameProgram number lines others := by
  -- a line that says what it said can stand in its place
  have hreplace : ∀ {line other : List Char} (front back : List (List Char)),
      SourceLine.ofText other = SourceLine.ofText line →
        SameProgram id (front ++ line :: back) (front ++ other :: back) := by
    intro line other front back hsame
    exact .of_map_eq (by simp [hsame])
  induction h with
  | refl lines => exact .of_map_eq rfl
  | trans _ _ hfirst hsecond => exact hfirst.trans hsecond
  | insert hidle front back => exact .insert hidle front back
  | indent hblanks front line back =>
    exact hreplace front back (SourceLine.ofText_blanks_append hblanks line)
  | trail hblanks front line back =>
    exact hreplace front back (SourceLine.ofText_append_blanks hblanks line)
  | comment comment front line back =>
    exact hreplace front back (SourceLine.ofText_append_comment line comment)
  | carriageReturn front line next back =>
    have hblanks : Blanks ['\r'] := by decide
    exact hreplace front (next :: back) (SourceLine.ofText_append_blanks hblanks line)

/-- **Layout does not matter.**  A program keeps its bytes, and an error stays the
same problem on the same line, under the new number of that line. -/
theorem assemble_of_relaid {number : Nat → Nat} {source other : List Char}
    (h : Relaid number (source.splitOn '\n') (other.splitOn '\n')) :
    assemble other = (assemble source).mapError (Error.renumber number) ∧
      ∀ i line, (source.splitOn '\n')[i]? = some line → ∃ j moved, number (i + 1) = j + 1 ∧
        (other.splitOn '\n')[j]? = some moved ∧
        SourceLine.ofText moved = SourceLine.ofText line :=
  ⟨h.sameProgram.outcome, h.sameProgram.line⟩

/-- A jump that is broken, one line further down and with a comment that looks
like a label. -/
theorem assemble_of_relaid_broken_jump :
    Relaid (movedFrom 0) ("nop\njmp end".toList.splitOn '\n')
        ("; start: here\n\tnop ;a: b\r\njmp end".toList.splitOn '\n') ∧
      assemble "nop\njmp end".toList = .error ⟨2, .undefinedLabel "end".toList⟩ ∧
      assemble "; start: here\n\tnop ;a: b\r\njmp end".toList
        = .error ⟨3, .undefinedLabel "end".toList⟩ := by
  have hblanks : Blanks [] ∧ Blanks ['\t'] ∧ Blanks [' '] := by decide
  obtain ⟨hnone, htab, hspace⟩ := hblanks
  have hinsert : Relaid (movedFrom 0) ["nop".toList, "jmp end".toList]
      ["; start: here".toList, "nop".toList, "jmp end".toList] :=
    .insert (.comment hnone " start: here".toList) [] _
  have hindent : Relaid id ["; start: here".toList, "nop".toList, "jmp end".toList]
      ["; start: here".toList, "\tnop ".toList, "jmp end".toList] :=
    .trans (.indent htab ["; start: here".toList] "nop".toList _)
      (.trail hspace ["; start: here".toList] "\tnop".toList _)
  have hcomment : Relaid id ["; start: here".toList, "\tnop ".toList, "jmp end".toList]
      ["; start: here".toList, "\tnop ;a: b\r".toList, "jmp end".toList] :=
    .trans (.comment "a: b".toList ["; start: here".toList] "\tnop ".toList _)
      (.carriageReturn ["; start: here".toList] "\tnop ;a: b".toList _ [])
  have hrelaid : Relaid (movedFrom 0) ("nop\njmp end".toList.splitOn '\n')
      ("; start: here\n\tnop ;a: b\r\njmp end".toList.splitOn '\n') :=
    hinsert.trans (hindent.trans hcomment)
  have herror : assemble "nop\njmp end".toList = .error ⟨2, .undefinedLabel "end".toList⟩ := by
    decide
  refine ⟨hrelaid, herror, ?_⟩
  rw [(assemble_of_relaid hrelaid).1, herror]
  rfl

end Assembly
end TD4
