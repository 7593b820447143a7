/-
Which error is reported.

What is wrong with a program text is told by its lines.  A line that follows other
lines has a *fault* (`LineFault`) if its label is none or is taken, if its statement
is at fault (`StatementFault`), or if there is no room for its byte.  A jump to a label
is *broken* if no line defines the label, or if the label stands behind the last byte
of the ROM (`BrokenAt`).

* `assemble_of_firstFault`: the first fault is the error that is reported,
  whatever stands behind it;
* `assemble_of_firstBroken`: without a fault it is the first broken jump;
* `errors_told` puts the two together: there is no other error.

A fault on any line comes before a broken jump on any other, even on an earlier
one, because a jump is only looked at when all lines have been read.
-/
import TD4.Proofs.Assembly.FirstPass
import TD4.Proofs.Assembly.SecondPass
import TD4.Proofs.Assembly.StatementFault

namespace TD4
namespace Assembly

variable {before lines : List SourceLine} {line : SourceLine} {problem : Problem} {i : Nat}

/-! ### Faults of lines -/

/-- The label of a line, if it has one, is an identifier that no line before it
defines. -/
def LabelFits (before : List SourceLine) (line : SourceLine) : Prop :=
  ∀ name, line.label = some name → isIdentifier name = true ∧ ∀ i, ¬ DefinedAt before name i

/-- What is wrong with a line that follows other lines.  The label is looked at
first, then the statement, and the room for its byte last. -/
inductive LineFault (before : List SourceLine) (line : SourceLine) : Problem → Prop
  | invalidLabel {name : List Char} (hlabel : line.label = some name)
      (hname : isIdentifier name = false) : LineFault before line (.invalidLabel name)
  | labelDefinedTwice {name : List Char} (hlabel : line.label = some name)
      (hname : isIdentifier name = true) (hold : ∃ i, DefinedAt before name i) :
      LineFault before line (.labelDefinedTwice name)
  | statement {problem : Problem} (hlabel : LabelFits before line) (hemits : line.emits = true)
      (hfault : StatementFault line.body problem) : LineFault before line problem
  | tooLarge (hlabel : LabelFits before line) (hemits : line.emits = true)
      (hsound : ∀ problem, ¬ StatementFault line.body problem)
      (hfull : 16 ≤ before.countP SourceLine.emits) : LineFault before line .programTooLarge

theorem labelFits_of_no_fault (h : ∀ problem, ¬ LineFault before line problem) :
    LabelFits before line := by
  intro name hlabel
  have hname : isIdentifier name = true := by
    by_contra hname
    exact h _ (.invalidLabel hlabel (Bool.eq_false_iff.mpr hname))
  exact ⟨hname, fun i hi => h _ (.labelDefinedTwice hlabel hname ⟨i, hi⟩)⟩

theorem sound_of_no_fault (h : ∀ problem, ¬ LineFault before line problem)
    (hemits : line.emits = true) : ∀ problem, ¬ StatementFault line.body problem :=
  fun problem hfault => h problem (.statement (labelFits_of_no_fault h) hemits hfault)

namespace Draft

variable {d labelled next : Draft}

theorem Holds.address?_eq_none_iff (hd : Holds d lines) {name : List Char} :
    d.address? name = none ↔ ∀ i, ¬ DefinedAt lines name i := by
  rw [Option.eq_none_iff_forall_ne_some]
  constructor
  · intro h i hi
    exact h _ ((hd.address?_iff name _).mpr ⟨i, hi, rfl⟩)
  · intro h address haddress
    obtain ⟨i, hi, -⟩ := (hd.address?_iff name address).mp haddress
    exact h i hi

theorem Holds.addLabel_of_labelFits (hd : Holds d before) (h : LabelFits before line) :
    ∃ labelled, d.addLabel line = .ok labelled ∧ labelled.code = d.code := by
  rw [addLabel]
  split
  case h_1 name hlabel =>
    obtain ⟨hname, hnew⟩ := h name hlabel
    have hnone := hd.address?_eq_none_iff.mpr hnew
    rw [define, hname, hnone]
    exact ⟨_, rfl, rfl⟩
  case h_2 => exact ⟨d, rfl, rfl⟩

/-- A line with a fault is not taken in. -/
theorem Holds.addLine_of_lineFault {text : List Char} (hd : Holds d before)
    (h : LineFault before (SourceLine.ofText text) problem) (number : Nat) :
    d.addLine number text = .error ⟨number, problem⟩ := by
  cases h with
  | invalidLabel hlabel hname => simp [addLine, addLabel, hlabel, define, hname]
  | @labelDefinedTwice name hlabel hname hold =>
    have hsome : (d.address? name).isSome = true := by
      rw [Option.isSome_iff_ne_none, ne_eq, hd.address?_eq_none_iff, not_forall]
      obtain ⟨i, hi⟩ := hold
      exact ⟨i, fun hnot => hnot hi⟩
    simp [addLine, addLabel, hlabel, define, hname, hsome]
  | statement hlabel hemits hfault =>
    have hread := Statement.read_eq_error_iff.mpr hfault
    obtain ⟨labelled, hlabelled, -⟩ := hd.addLabel_of_labelFits hlabel
    simp [addLine, hlabelled, addBody, hemits, hread]
  | tooLarge hlabel hemits hsound hfull =>
    obtain ⟨s, hread⟩ := Statement.exists_read_iff.mpr hsound
    obtain ⟨labelled, hlabelled, hcode⟩ := hd.addLabel_of_labelFits hlabel
    have hroom : ¬ labelled.code.length < Rom.size := by
      rw [hcode, hd.length_code]
      exact Nat.not_lt.mpr hfull
    simp [addLine, hlabelled, addBody, hemits, hread, emit, hroom]

theorem Holds.labelFits_of_addLabel (hd : Holds d before) (h : d.addLabel line = .ok labelled) :
    LabelFits before line ∧ labelled.code = d.code := by
  obtain ⟨hfresh, hlabelled⟩ := addLabel_ok h
  refine ⟨fun name hlabel => ⟨?_, hd.address?_eq_none_iff.mp (hfresh name hlabel)⟩, ?_⟩
  · rw [addLabel, hlabel] at h
    by_contra hname
    rw [Bool.not_eq_true] at hname
    simp [define, hname] at h
  · rw [hlabelled]

theorem Holds.lineFault_of_addLabel (hd : Holds d before) (h : d.addLabel line = .error problem) :
    LineFault before line problem := by
  rw [addLabel] at h
  split at h
  case h_1 name hlabel =>
    rw [define] at h
    split at h
    case isTrue hname =>
      cases h
      exact .invalidLabel hlabel (by simpa using hname)
    case isFalse hname =>
      split at h
      case isTrue hsome =>
        cases h
        refine .labelDefinedTwice hlabel (by simpa using hname) ?_
        by_contra hnone
        rw [not_exists, ← hd.address?_eq_none_iff] at hnone
        rw [hnone] at hsome
        cases hsome
      case isFalse => cases h
  case h_2 => cases h

/-- A line that is not taken in has a fault. -/
theorem Holds.lineFault_of_addLine {text : List Char} {number : Nat} {e : Error}
    (hd : Holds d before) (h : d.addLine number text = .error e) :
    LineFault before (SourceLine.ofText text) e.problem := by
  simp only [addLine] at h
  split at h
  case h_1 hlabel =>
    cases h
    exact hd.lineFault_of_addLabel hlabel
  case h_2 labelled hlabelled =>
    obtain ⟨hfits, hcode⟩ := hd.labelFits_of_addLabel hlabelled
    split at h
    case h_2 => cases h
    case h_1 hbody =>
      cases h
      rw [addBody] at hbody
      split at hbody
      case isFalse => cases hbody
      case isTrue hemits =>
        split at hbody
        case h_2 hread =>
          cases hbody
          exact .statement hfits hemits (Statement.read_eq_error_iff.mp hread)
        case h_1 s hread =>
          rw [emit] at hbody
          split at hbody
          case isTrue => cases hbody
          case isFalse hroom =>
            cases hbody
            rw [hcode, hd.length_code] at hroom
            exact .tooLarge hfits hemits (Statement.exists_read_iff.mp ⟨s, hread⟩)
              (Nat.not_lt.mp hroom)

end Draft

/-! ### The first fault of a program text -/

/-- A line has a fault after the lines before it. -/
def FaultAt (lines : List SourceLine) (i : Nat) (problem : Problem) : Prop :=
  ∃ line, lines[i]? = some line ∧ LineFault (lines.take i) line problem

/-- A line has a fault, and no line before it has one. -/
structure FirstFault (lines : List SourceLine) (i : Nat) (problem : Problem) : Prop where
  fault : FaultAt lines i problem
  first : ∀ j < i, ∀ other, ¬ FaultAt lines j other

theorem FaultAt.lt_length (h : FaultAt lines i problem) : i < lines.length := by
  obtain ⟨line, hline, -⟩ := h
  exact lt_length_of_getElem? hline

/-- If some line has a fault, some line has the first one. -/
theorem exists_first {P : Nat → Problem → Prop} (h : ∃ i problem, P i problem) :
    ∃ i problem, P i problem ∧ ∀ j < i, ∀ other, ¬ P j other := by
  classical
  obtain ⟨problem, hproblem⟩ := Nat.find_spec h
  exact ⟨Nat.find h, problem, hproblem, fun j hj other hother => Nat.find_min h hj ⟨other, hother⟩⟩

theorem exists_firstFault (h : ∃ i problem, FaultAt lines i problem) :
    ∃ i problem, FirstFault lines i problem := by
  obtain ⟨i, problem, hfault, hfirst⟩ := exists_first h
  exact ⟨i, problem, hfault, hfirst⟩

/-- Whether a line has a fault is settled by the lines up to it. -/
theorem faultAt_of_take_eq {others : List SourceLine} {n : Nat}
    (htake : others.take n = lines.take n) (hi : i < n) (h : FaultAt lines i problem) :
    FaultAt others i problem := by
  obtain ⟨line, hline, hfault⟩ := h
  refine ⟨line, ?_, ?_⟩
  · rw [← List.getElem?_take_of_lt hi, htake, List.getElem?_take_of_lt hi, hline]
  · have htaken : others.take i = lines.take i := by
      have := congrArg (List.take i) htake
      rwa [List.take_take, List.take_take, Nat.min_eq_left (Nat.le_of_lt hi)] at this
    rwa [htaken]

theorem FirstFault.of_take_eq {others : List SourceLine}
    (htake : others.take (i + 1) = lines.take (i + 1)) (h : FirstFault lines i problem) :
    FirstFault others i problem where
  fault := faultAt_of_take_eq htake (Nat.lt_succ_self i) h.fault
  first j hj other hother :=
    h.first j hj other (faultAt_of_take_eq htake.symm (Nat.lt_succ_of_lt hj) hother)

theorem faultAt_length_iff {rest : List SourceLine} :
    FaultAt (before ++ line :: rest) before.length problem ↔ LineFault before line problem := by
  rw [FaultAt, List.take_left, List.getElem?_append_right (Nat.le_refl _), Nat.sub_self,
    List.getElem?_cons_zero]
  constructor
  · rintro ⟨other, hother, hfault⟩
    rwa [Option.some_inj.mp hother]
  · intro h
    exact ⟨line, rfl, h⟩

namespace Draft

/-- The first pass stops at the first fault.  The induction lets lines have been
read. -/
theorem Holds.addLines_of_firstFault {texts : List (List Char)} :
    ∀ {d : Draft} {before : List SourceLine}, Holds d before →
      FirstFault (before ++ texts.map SourceLine.ofText) i problem → before.length ≤ i →
        d.addLines (before.length + 1) texts = .error ⟨i + 1, problem⟩ := by
  induction texts with
  | nil =>
    intro d before _ h hi
    have hlt := h.fault.lt_length
    rw [List.map_nil, List.append_nil] at hlt
    exact absurd hlt (Nat.not_lt.mpr hi)
  | cons text rest ih =>
    intro d before hd h hi
    rw [List.map_cons] at h
    rw [Draft.addLines]
    rcases Nat.eq_or_lt_of_le hi with rfl | hlt
    · rw [hd.addLine_of_lineFault (faultAt_length_iff.mp h.fault)]
    · rcases hline : d.addLine (before.length + 1) text with e | next
      · -- a fault of this line would be an earlier one
        exact absurd (faultAt_length_iff.mpr (hd.lineFault_of_addLine hline)) (h.first _ hlt _)
      · have hnext : Holds next (before ++ [SourceLine.ofText text]) :=
          hd.step (step_of_addLine hline)
        have hread : (before ++ [SourceLine.ofText text]).length ≤ i := by
          rw [List.length_append, List.length_singleton]
          exact hlt
        have hrest := ih hnext (by simpa using h) hread
        simpa using hrest

/-- Lines without a fault are all taken in. -/
theorem Holds.exists_addLines {texts : List (List Char)} :
    ∀ {d : Draft} {before : List SourceLine}, Holds d before →
      (∀ i problem, ¬ FaultAt (before ++ texts.map SourceLine.ofText) i problem) →
        ∃ next, d.addLines (before.length + 1) texts = .ok next := by
  induction texts with
  | nil =>
    intro d before _ _
    exact ⟨d, rfl⟩
  | cons text rest ih =>
    intro d before hd h
    rw [List.map_cons] at h
    rw [Draft.addLines]
    rcases hline : d.addLine (before.length + 1) text with e | next
    · exact absurd (faultAt_length_iff.mpr (hd.lineFault_of_addLine hline)) (h _ _)
    · have hnext : Holds next (before ++ [SourceLine.ofText text]) :=
        hd.step (step_of_addLine hline)
      obtain ⟨last, hlast⟩ := ih hnext (by simpa using h)
      exact ⟨last, by simpa using hlast⟩

theorem exists_ofSource {source : List Char}
    (h : ∀ i problem, ¬ FaultAt (SourceLine.ofSource source) i problem) :
    ∃ d, ofSource source = .ok d :=
  holds_empty.exists_addLines h

end Draft

/-- The first fault is reported, whatever stands behind it. -/
theorem assemble_of_firstFault {source other : List Char}
    (h : FirstFault (SourceLine.ofSource source) i problem)
    (htake : (other.splitOn '\n').take (i + 1) = (source.splitOn '\n').take (i + 1)) :
    assemble other = .error ⟨i + 1, problem⟩ := by
  have hlines : (SourceLine.ofSource other).take (i + 1)
      = (SourceLine.ofSource source).take (i + 1) := by
    rw [SourceLine.ofSource, SourceLine.ofSource, ← List.map_take, htake, List.map_take]
  have hpass : Draft.ofSource other = .error ⟨i + 1, problem⟩ :=
    Draft.holds_empty.addLines_of_firstFault (h.of_take_eq hlines) (Nat.zero_le i)
  rw [assemble, hpass]

/-! ### Broken jumps -/

/-- Why nothing can jump to a label. -/
inductive Unreachable (lines : List SourceLine) (name : List Char) : Problem → Prop
  | undefined (hnone : ∀ j, ¬ DefinedAt lines name j) :
      Unreachable lines name (.undefinedLabel name)
  /-- The label stands behind the last byte of the ROM. -/
  | behindRom {j : Nat} (hj : DefinedAt lines name j) (haddress : addressOf lines j = 16) :
      Unreachable lines name (.outOfRange 16)

/-- A line jumps to a label that nothing can jump to. -/
def BrokenAt (lines : List SourceLine) (i : Nat) (problem : Problem) : Prop :=
  ∃ line name opcode, lines[i]? = some line ∧ LabelJump line.body name opcode ∧
    Unreachable lines name problem

/-- A line has a broken jump, and no line before it has one. -/
structure FirstBroken (lines : List SourceLine) (i : Nat) (problem : Problem) : Prop where
  broken : BrokenAt lines i problem
  first : ∀ j < i, ∀ other, ¬ BrokenAt lines j other

theorem exists_firstBroken (h : ∃ i problem, BrokenAt lines i problem) :
    ∃ i problem, FirstBroken lines i problem := by
  obtain ⟨i, problem, hbroken, hfirst⟩ := exists_first h
  exact ⟨i, problem, hbroken, hfirst⟩

theorem addressOf_le_countP (lines : List SourceLine) (i : Nat) :
    addressOf lines i ≤ lines.countP SourceLine.emits :=
  (List.take_sublist i lines).countP_le

namespace Draft

variable {d : Draft} {fixup : Fixup} {fixups : List Fixup} {code : List UInt8} {e : Error}

theorem Holds.target_of_unreachable (hd : Holds d lines)
    (h : Unreachable lines fixup.label problem) :
    d.target fixup = .error ⟨fixup.line, problem⟩ := by
  cases h with
  | undefined hnone => rw [target, hd.address?_eq_none_iff.mpr hnone]
  | @behindRom j hj haddress =>
    have hsome : d.address? fixup.label = some 16 :=
      (hd.address?_iff _ _).mpr ⟨j, hj, haddress⟩
    rw [target, hsome]
    exact if_neg (by decide)

/-- A fixup that fails is a jump to a label that nothing can jump to. -/
theorem Holds.unreachable_of_target (hd : Holds d lines) (h : d.target fixup = .error e) :
    Unreachable lines fixup.label e.problem := by
  rw [target] at h
  split at h
  case h_1 hnone =>
    cases h
    exact .undefined (hd.address?_eq_none_iff.mp hnone)
  case h_2 address hsome =>
    split at h
    case isTrue => cases h
    case isFalse hlarge =>
      cases h
      obtain ⟨j, hj, rfl⟩ := (hd.address?_iff _ _).mp hsome
      -- no label stands further back than behind the last byte
      have hle : addressOf lines j ≤ 16 := by
        refine (addressOf_le_countP lines j).trans ?_
        rw [← hd.length_code]
        exact hd.length_le
      have haddress : addressOf lines j = 16 := Nat.le_antisymm hle (Nat.not_lt.mp hlarge)
      have hbehind := Unreachable.behindRom hj haddress
      rwa [← haddress] at hbehind

/-- The first fixup that fails is the error of the second pass. -/
theorem applyFixups_of_first {front back : List Fixup}
    (hfront : ∀ earlier ∈ front, ∃ address, d.target earlier = .ok address)
    (h : d.target fixup = .error e) :
    d.applyFixups (front ++ fixup :: back) code = .error e := by
  induction front generalizing code with
  | nil => rw [List.nil_append, applyFixups, h]
  | cons first rest ih =>
    obtain ⟨hfirst, hrest⟩ := List.forall_mem_cons.mp hfront
    obtain ⟨address, haddress⟩ := hfirst
    rw [List.cons_append, applyFixups, haddress]
    exact ih hrest

/-- A fixup of a line whose jump is not broken finds its label. -/
theorem Holds.exists_target (hd : Holds d lines) (hmem : fixup ∈ d.fixups)
    (h : ∀ j, fixup.line = j + 1 → ∀ other, ¬ BrokenAt lines j other) :
    ∃ address, d.target fixup = .ok address := by
  obtain ⟨j, line, opcode, hline, hjump, -, hnumber⟩ := (hd.mem_fixups_iff fixup).mp hmem
  rcases htarget : d.target fixup with e | address
  · have hbroken : BrokenAt lines j e.problem :=
      ⟨line, fixup.label, opcode, hline, hjump, hd.unreachable_of_target htarget⟩
    exact absurd hbroken (h j hnumber _)
  · exact ⟨address, rfl⟩

theorem Holds.resolve_of_firstBroken (hd : Holds d lines) (h : FirstBroken lines i problem) :
    d.resolve = .error ⟨i + 1, problem⟩ := by
  obtain ⟨line, name, opcode, hline, hjump, hunreachable⟩ := h.broken
  have hmem : ⟨addressOf lines i, name, i + 1⟩ ∈ d.fixups :=
    (hd.mem_fixups_iff _).mpr ⟨i, line, opcode, hline, hjump, rfl, rfl⟩
  obtain ⟨front, back, hsplit⟩ := List.append_of_mem hmem
  -- the fixups in front of it belong to lines before it
  have hfront : ∀ earlier ∈ front, ∃ address, d.target earlier = .ok address := by
    intro earlier hearlier
    refine hd.exists_target (by simp [hsplit, hearlier]) fun j hj => ?_
    have hsorted := hd.fixups_sorted
    rw [hsplit] at hsorted
    have hlt := ((List.pairwise_append.mp hsorted).2.2 earlier hearlier _ List.mem_cons_self).2
    refine h.first j ?_
    have : earlier.line < i + 1 := hlt
    omega
  rw [resolve, hsplit]
  exact applyFixups_of_first hfront (hd.target_of_unreachable hunreachable)

theorem Holds.exists_resolve (hd : Holds d lines) (h : ∀ j other, ¬ BrokenAt lines j other) :
    ∃ out, d.resolve = .ok out :=
  exists_applyFixups fun _ hmem => hd.exists_target hmem fun j _ => h j

end Draft

/-- If no line has a fault, the first broken jump is reported. -/
theorem assemble_of_firstBroken {source : List Char}
    (hnone : ∀ i problem, ¬ FaultAt (SourceLine.ofSource source) i problem)
    (h : FirstBroken (SourceLine.ofSource source) i problem) :
    assemble source = .error ⟨i + 1, problem⟩ := by
  obtain ⟨d, hd⟩ := Draft.exists_ofSource hnone
  rw [assemble, hd]
  exact (Draft.holds_of_ofSource hd).resolve_of_firstBroken h

theorem exists_assemble {source : List Char}
    (hnone : ∀ i problem, ¬ FaultAt (SourceLine.ofSource source) i problem)
    (h : ∀ i problem, ¬ BrokenAt (SourceLine.ofSource source) i problem) :
    ∃ bytes, assemble source = .ok bytes := by
  obtain ⟨d, hd⟩ := Draft.exists_ofSource hnone
  rw [assemble, hd]
  exact (Draft.holds_of_ofSource hd).exists_resolve h

/-! ### All errors -/

/-- The errors of a program text, told by its lines. -/
structure ErrorsTold (source : List Char) : Prop where
  fails_iff : (∃ e, assemble source = .error e) ↔
    (∃ i problem, FaultAt (SourceLine.ofSource source) i problem) ∨
      (¬ ∃ i problem, FaultAt (SourceLine.ofSource source) i problem) ∧
        ∃ i problem, BrokenAt (SourceLine.ofSource source) i problem
  /-- An error is the first fault, or the first broken jump if there is no fault. -/
  reported_iff : ∀ e, assemble source = .error e ↔
    (∃ i problem, FirstFault (SourceLine.ofSource source) i problem ∧ e = ⟨i + 1, problem⟩) ∨
      (¬ ∃ i problem, FaultAt (SourceLine.ofSource source) i problem) ∧
        ∃ i problem, FirstBroken (SourceLine.ofSource source) i problem ∧ e = ⟨i + 1, problem⟩
  /-- Text behind the first fault has no influence. -/
  behind_fault : ∀ i problem, FirstFault (SourceLine.ofSource source) i problem →
    ∀ other : List Char, (other.splitOn '\n').take (i + 1) = (source.splitOn '\n').take (i + 1) →
      assemble other = .error ⟨i + 1, problem⟩
  /-- The program is too large at the statement after the sixteenth, if its line
  has no other fault. -/
  tooLarge_iff : ∀ i, FirstFault (SourceLine.ofSource source) i .programTooLarge ↔
    (∃ line, (SourceLine.ofSource source)[i]? = some line ∧
      LabelFits ((SourceLine.ofSource source).take i) line ∧ line.emits = true ∧
      (∀ problem, ¬ StatementFault line.body problem) ∧
      addressOf (SourceLine.ofSource source) i = 16) ∧
    ∀ j < i, ∀ other, ¬ FaultAt (SourceLine.ofSource source) j other
  /-- A statement is refused for what is wrong with it and for nothing else. -/
  statement_iff : ∀ line ∈ SourceLine.ofSource source, ∀ problem,
    Statement.read line.body = .error problem ↔ StatementFault line.body problem

/-- Where no line has a fault, at most sixteen put a byte into the program. -/
theorem addressOf_le_of_no_fault (h : ∀ j < i, ∀ other, ¬ FaultAt lines j other) :
    addressOf lines i ≤ 16 := by
  by_contra hlarge
  -- there would be no room for the seventeenth statement
  obtain ⟨j, line, hline, hemits, haddress⟩ := exists_addressOf_eq (Nat.not_le.mp hlarge)
  rw [List.getElem?_take, Option.ite_none_right_eq_some] at hline
  obtain ⟨hj, hline⟩ := hline
  have hnone : ∀ problem, ¬ LineFault (lines.take j) line problem :=
    fun problem hfault => h j hj problem ⟨line, hline, hfault⟩
  rw [addressOf, List.take_take, Nat.min_eq_left (Nat.le_of_lt hj)] at haddress
  exact hnone _ (.tooLarge (labelFits_of_no_fault hnone) hemits (sound_of_no_fault hnone hemits)
    haddress.ge)

/-- An error is the first fault, or the first broken jump if there is no fault. -/
theorem cause_of_assemble {source : List Char} {e : Error} (he : assemble source = .error e) :
    (∃ i problem, FirstFault (SourceLine.ofSource source) i problem ∧ e = ⟨i + 1, problem⟩) ∨
      (¬ ∃ i problem, FaultAt (SourceLine.ofSource source) i problem) ∧
        ∃ i problem, FirstBroken (SourceLine.ofSource source) i problem ∧ e = ⟨i + 1, problem⟩ := by
  by_cases hsome : ∃ i problem, FaultAt (SourceLine.ofSource source) i problem
  · obtain ⟨i, problem, hfirst⟩ := exists_firstFault hsome
    refine Or.inl ⟨i, problem, hfirst, ?_⟩
    exact Except.error.inj (he.symm.trans (assemble_of_firstFault hfirst rfl))
  · have hnone : ∀ i problem, ¬ FaultAt (SourceLine.ofSource source) i problem :=
      fun i problem hfault => hsome ⟨i, problem, hfault⟩
    by_cases hbroken : ∃ i problem, BrokenAt (SourceLine.ofSource source) i problem
    · obtain ⟨i, problem, hfirst⟩ := exists_firstBroken hbroken
      refine Or.inr ⟨hsome, i, problem, hfirst, ?_⟩
      exact Except.error.inj (he.symm.trans (assemble_of_firstBroken hnone hfirst))
    · -- the text is assembled after all
      obtain ⟨bytes, hbytes⟩ := exists_assemble hnone fun i problem h => hbroken ⟨i, problem, h⟩
      rw [hbytes] at he
      cases he

/-- The first fault is that the program is too large where the seventeenth
statement stands, if all lines before it are free of faults and so is the rest of
its own. -/
theorem firstFault_tooLarge_iff (source : List Char) (i : Nat) :
    FirstFault (SourceLine.ofSource source) i .programTooLarge ↔
      (∃ line, (SourceLine.ofSource source)[i]? = some line ∧
        LabelFits ((SourceLine.ofSource source).take i) line ∧ line.emits = true ∧
        (∀ problem, ¬ StatementFault line.body problem) ∧
        addressOf (SourceLine.ofSource source) i = 16) ∧
      ∀ j < i, ∀ other, ¬ FaultAt (SourceLine.ofSource source) j other := by
  constructor
  · rintro ⟨⟨line, hline, hfault⟩, hfirst⟩
    refine ⟨?_, hfirst⟩
    cases hfault with
    | statement _ _ hfault => exact absurd hfault StatementFault.ne_programTooLarge
    | tooLarge hlabel hemits hsound hfull =>
      have hle := addressOf_le_of_no_fault hfirst
      exact ⟨line, hline, hlabel, hemits, hsound, Nat.le_antisymm hle hfull⟩
  · rintro ⟨⟨line, hline, hlabel, hemits, hsound, haddress⟩, hfirst⟩
    exact ⟨⟨line, hline, .tooLarge hlabel hemits hsound haddress.ge⟩, hfirst⟩

/-- **The right error on the right line.** -/
theorem errors_told (source : List Char) : ErrorsTold source := by
  have hfault : ∀ {i problem}, FirstFault (SourceLine.ofSource source) i problem →
      assemble source = .error ⟨i + 1, problem⟩ := fun h => assemble_of_firstFault h rfl
  have hbroken : ∀ {i problem}, (¬ ∃ i problem, FaultAt (SourceLine.ofSource source) i problem) →
      FirstBroken (SourceLine.ofSource source) i problem →
        assemble source = .error ⟨i + 1, problem⟩ := fun hnone h =>
    assemble_of_firstBroken (fun i problem hfault => hnone ⟨i, problem, hfault⟩) h
  constructor
  · constructor
    · rintro ⟨e, he⟩
      rcases cause_of_assemble he with
        ⟨i, problem, hfirst, -⟩ | ⟨hnone, i, problem, hfirst, -⟩
      · exact Or.inl ⟨i, problem, hfirst.1⟩
      · exact Or.inr ⟨hnone, i, problem, hfirst.1⟩
    · rintro (h | ⟨hnone, h⟩)
      · obtain ⟨i, problem, hfirst⟩ := exists_firstFault h
        exact ⟨_, hfault hfirst⟩
      · obtain ⟨i, problem, hfirst⟩ := exists_firstBroken h
        exact ⟨_, hbroken hnone hfirst⟩
  · intro e
    constructor
    · exact cause_of_assemble
    · rintro (⟨i, problem, hfirst, rfl⟩ | ⟨hnone, i, problem, hfirst, rfl⟩)
      · exact hfault hfirst
      · exact hbroken hnone hfirst
  · intro i problem h other htake
    exact assemble_of_firstFault h htake
  · exact firstFault_tooLarge_iff source
  · exact fun _ _ _ => Statement.read_eq_error_iff

/-- A broken jump, and a fault of each kind on a line of its own behind it.  The first fault
is reported, and none of the others. -/
theorem errors_told_kinds :
    let source := ("jmp nowhere\nadd a, 16\nx: nop\nx: db 1\n1y: nop\nfoo a\nmov c, 1\ndb 0x\n" ++
      "out b + c\nin c\ndb\nadd b, -1").toList
    let lines := SourceLine.ofSource source
    BrokenAt lines 0 (.undefinedLabel "nowhere".toList) ∧ FirstFault lines 1 (.outOfRange 16) ∧
      FaultAt lines 3 (.labelDefinedTwice "x".toList) ∧
      FaultAt lines 4 (.invalidLabel "1y".toList) ∧
      FaultAt lines 5 (.unknownMnemonic "foo".toList) ∧ FaultAt lines 6 (.badOperands .mov) ∧
      FaultAt lines 7 (.invalidNumber "0x".toList) ∧ FaultAt lines 8 (.labelForNumber "c".toList) ∧
      FaultAt lines 9 .inputNeedsRegister ∧ FaultAt lines 10 .dataNeedsOneValue ∧
      FaultAt lines 11 (.invalidOperand "-1".toList) ∧
      assemble source = .error ⟨2, .outOfRange 16⟩ := by
  intro source lines
  have hstatement : ∀ {i : Nat} {body : List Char} {problem : Problem},
      lines[i]? = some ⟨none, body⟩ → body ≠ [] → Statement.read body = .error problem →
        FaultAt lines i problem := fun hline hne hread =>
    have hemits : SourceLine.emits ⟨none, _⟩ = true := by simpa [SourceLine.emits] using hne
    ⟨_, hline, .statement nofun hemits (Statement.read_eq_error_iff.mp hread)⟩
  have hsound : ∀ problem, ¬ FaultAt lines 0 problem := by
    rintro problem ⟨line, hline, hfault⟩
    cases hline
    cases hfault with
    | invalidLabel hlabel => cases hlabel
    | labelDefinedTwice hlabel => cases hlabel
    | statement _ _ hfault => cases Statement.read_eq_error_iff.mpr hfault
    | tooLarge _ _ _ hfull => cases hfull
  have hbroken : BrokenAt lines 0 (.undefinedLabel "nowhere".toList) := by
    have hnone : ∀ line ∈ lines, line.label ≠ some "nowhere".toList := by decide
    refine ⟨_, _, _, rfl, .jmp (by decide) (by decide), .undefined ?_⟩
    rintro j ⟨line, hline, hlabel⟩
    exact hnone line (List.mem_of_getElem? hline) hlabel
  have hfirst : FirstFault lines 1 (.outOfRange 16) := by
    refine ⟨hstatement rfl (by decide) (by decide), ?_⟩
    intro j hj
    obtain rfl : j = 0 := Nat.lt_one_iff.mp hj
    exact hsound
  refine ⟨hbroken, hfirst, ⟨_, rfl, .labelDefinedTwice rfl (by decide) ⟨2, _, rfl, rfl⟩⟩,
    ⟨_, rfl, .invalidLabel rfl (by decide)⟩, hstatement rfl (by decide) (by decide),
    hstatement rfl (by decide) (by decide), hstatement rfl (by decide) (by decide),
    hstatement rfl (by decide) (by decide), hstatement rfl (by decide) (by decide),
    hstatement rfl (by decide) (by decide), hstatement rfl (by decide) (by decide), ?_⟩
  exact ((errors_told source).reported_iff _).mpr (Or.inl ⟨1, _, hfirst, rfl⟩)

end Assembly
end TD4
