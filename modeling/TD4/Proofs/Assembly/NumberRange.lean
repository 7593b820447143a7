/-
Numbers that are too large.

A `Slot` is a place for a number in a statement: behind a mnemonic and perhaps a
register, as an operand of its own or as the offset of a register, with the largest
number that fits there.  All slots read their number in the same way
(`Slot.ofOperands_eq`), so what is said of one number is said of every statement:

* a number that fits is taken, and is not what its line is blamed for;
* a larger one is out of range;
* from `2 ^ 32` on a number is no longer read at all, and its line is blamed for the
  form of the number (`beyond_word_malformed`).

`numbers_in_range` says so for a line anywhere in a program, with a label or a
comment, whatever follows it.
-/
import TD4.Proofs.Assembly.Faults

namespace TD4
namespace Assembly

open Text

/-! ### Numbers of any size -/

namespace NumberText

variable {text : List Char} {n : Nat} {bound : UInt8}

theorem number_of_le (h : NumberText text n) (hle : n ≤ bound.toNat) :
    number bound text = .ok (UInt8.ofNat n) :=
  (numeral_iff.mpr ⟨Or.inl h, hle⟩).number bound

theorem number_of_lt (h : NumberText text n) (hlarge : bound.toNat < n) (hlimit : n < numberLimit) :
    number bound text = .error (.outOfRange n) :=
  number_eq_error_iff.mpr (.outOfRange (Or.inl h) hlarge hlimit)

theorem number_of_beyond (h : NumberText text n) (hbeyond : numberLimit ≤ n) :
    number bound text = .error (.invalidNumber text) :=
  number_eq_error_iff.mpr (.beyond (Or.inl h) hbeyond)

/-- A number begins with a digit. -/
theorem numeric (h : NumberText text n) : Numeric text := HasValue.numeric (Or.inl h)

theorem isAlphanum_of_positional {base : Nat} {digits : List Char} (hbase : base ≤ 16)
    (h : Positional base digits n) : ∀ c ∈ digits, c.isAlphanum = true := by
  intro c hc
  obtain ⟨d, hd⟩ := h.digit? hbase c hc
  exact isAlphanum_of_digit? hd

theorem isAlphanum (h : NumberText text n) : ∀ c ∈ text, c.isAlphanum = true := by
  cases h with
  | decimal hdigits => exact isAlphanum_of_positional (by decide) hdigits
  | marked hmark hdigits =>
    refine List.forall_mem_cons.mpr ⟨rfl, List.forall_mem_cons.mpr ⟨?_, ?_⟩⟩
    · cases hmark <;> rfl
    · exact isAlphanum_of_positional hmark.le hdigits

theorem isWord (h : NumberText text n) : IsWord text := by
  obtain ⟨c, rest, rfl, -⟩ := h.numeric
  exact ⟨List.cons_ne_nil c rest, fun d hd => isValueChar_of_isAlphanum (h.isAlphanum d hd)⟩

end NumberText

/-! ### Places for numbers -/

/-- A place for a number: a mnemonic, the operands in front, what stands in front of
the number in its own operand, and the largest number that fits. -/
inductive Slot : Mnemonic → List (List Char) → List Char → Nat → Prop
  | data : Slot .data [] [] 255
  | immediate {m : Mnemonic} {front : List (List Char)} {op : Operation}
      (hform : NumberForm m front op) : Slot m front [] 15
  | offset {m : Mnemonic} {front : List (List Char)} {register : Char} {op : Operation}
      {before after : List Char} (hform : OffsetForm m front register op)
      (hbefore : Blanks before) (hafter : Blanks after) :
      Slot m front (register :: (before ++ '+' :: after)) 15

theorem Statement.ofImmediate_eq_map (op : Operation) (imm? : Except Problem UInt8) :
    Statement.ofImmediate op imm? = imm?.map fun imm => ⟨Instruction.encode ⟨op, imm⟩, none⟩ := by
  cases imm? <;> rfl

section Slots

variable {m : Mnemonic} {front : List (List Char)} {lead text : List Char} {bound n : Nat}

/-- What a statement is read as is decided by how its number is read, up to the
largest number that fits. -/
theorem Slot.ofOperands_eq (h : Slot m front lead bound) (htext : NumberText text n) :
    ∃ byteOf : UInt8 → UInt8, Statement.ofOperands m (front ++ [lead ++ text])
      = (number (UInt8.ofNat bound) text).map fun imm => ⟨byteOf imm, none⟩ := by
  cases h with
  | data =>
    refine ⟨id, ?_⟩
    show Statement.ofOperands .data [text] = (number 255 text).map _
    rw [Statement.ofOperands]
    cases number 255 text <;> rfl
  | @immediate _ _ op hform =>
    refine ⟨fun imm => Instruction.encode ⟨op, imm⟩, ?_⟩
    rw [← Statement.ofImmediate_eq_map]
    exact Statement.ofOperands_number hform (fun _ _ hoffset _ => htext.numeric.not_withRegister hoffset)
      fun _ _ => htext.numeric.isIdentifier_eq_false
  | @offset _ _ register op before after hform hbefore hafter =>
    refine ⟨fun imm => Instruction.encode ⟨op, imm⟩, ?_⟩
    rw [← Statement.ofImmediate_eq_map]
    have hoffset := offsetOf?_blanks_plus register hbefore hafter htext.isWord.trim_eq
    exact Statement.ofOperands_offset hform (offsetOf?_eq_some_iff.mp hoffset)

theorem Slot.isOperand (h : Slot m front lead bound) (htext : NumberText text n) :
    ∀ arg ∈ front ++ [lead ++ text], IsOperand arg := by
  have hconcat : ∀ {last : List Char}, (∀ word ∈ front, word = ['a'] ∨ word = ['b']) →
      IsOperand last → ∀ arg ∈ front ++ [last], IsOperand arg := by
    intro last hfront hlast arg harg
    rcases List.mem_append.mp harg with hmem | hmem
    · exact (isWord_of_front hfront arg hmem).isOperand
    · exact List.mem_singleton.mp hmem ▸ hlast
  cases h with
  | data => exact hconcat nofun htext.isWord.isOperand
  | immediate hform => exact hconcat hform.front_eq htext.isWord.isOperand
  | @offset _ _ register _ _ _ hform hbefore hafter =>
    have hregister : isValueChar register = true := by
      rcases hform.register_eq with rfl | rfl <;> rfl
    exact hconcat hform.front_eq (htext.isWord.isOperand_offset hregister hbefore hafter)

theorem Slot.toNat_ofNat (h : Slot m front lead bound) : (UInt8.ofNat bound).toNat = bound := by
  cases h <;> rfl

/-- The same for the text of a statement, in any layout and in capitals or not. -/
theorem Slot.read_eq (h : Slot m front lead bound) (htext : NumberText text n) {body : List Char}
    (htrim : trim body = body) (hwritten : Written m (front ++ [lead ++ text]) (lowercase body)) :
    ∃ byteOf : UInt8 → UInt8, Statement.read body
      = (number (UInt8.ofNat bound) text).map fun imm => ⟨byteOf imm, none⟩ := by
  have hparts : parts body = (m.text, front ++ [lead ++ text]) := by
    rw [← htrim, parts_trim, hwritten.cut_trim (h.isOperand htext)]
  obtain ⟨byteOf, hread⟩ := h.ofOperands_eq htext
  refine ⟨byteOf, ?_⟩
  rw [Statement.read, hparts]
  simp only [Mnemonic.ofText?_text]
  exact hread

end Slots

/-! ### Lines with a number -/

/-- The reader of a program gets to a line and takes its label: no line before it has
a fault. -/
structure Reached (lines : List SourceLine) (i : Nat) (line : SourceLine) : Prop where
  getElem? : lines[i]? = some line
  no_fault : ∀ j < i, ∀ problem, ¬ FaultAt lines j problem
  label : LabelFits (lines.take i) line

section Lines

variable {source : List Char} {i : Nat} {line : SourceLine} {problem : Problem}

theorem emits_of_read (h : Statement.read line.body ≠ .error (.unknownMnemonic [])) :
    line.emits = true := by
  rw [SourceLine.emits, Bool.not_eq_true', List.isEmpty_eq_false_iff]
  intro hnil
  exact h (by rw [hnil]; rfl)

/-- A line whose operands cannot be read is what its program fails for. -/
theorem Reached.assemble_of_read (h : Reached (SourceLine.ofSource source) i line)
    (hproblem : problem ≠ .unknownMnemonic []) (hread : Statement.read line.body = .error problem) :
    assemble source = .error ⟨i + 1, problem⟩ := by
  have hemits : line.emits = true := by
    refine emits_of_read fun hempty => ?_
    exact hproblem (Except.error.inj (hread.symm.trans hempty))
  have hfault := Statement.read_eq_error_iff.mp hread
  exact assemble_of_firstFault ⟨⟨line, h.getElem?, .statement h.label hemits hfault⟩, h.no_fault⟩ rfl

/-- A line whose statement is read and names no label can only want for room. -/
theorem Reached.programTooLarge_of_read (h : Reached (SourceLine.ofSource source) i line)
    {byte : UInt8} (hread : Statement.read line.body = .ok ⟨byte, none⟩) {e : Error}
    (he : assemble source = .error e) (hline : e.line = i + 1) :
    e.problem = .programTooLarge := by
  rcases cause_of_assemble he with ⟨j, problem, hfirst, rfl⟩ | ⟨-, j, problem, hfirst, rfl⟩
  · obtain rfl : j = i := Nat.succ.inj hline
    obtain ⟨other, hother, hfault⟩ := hfirst.fault
    obtain rfl : line = other := Option.some.inj (h.getElem?.symm.trans hother)
    cases hfault with
    | invalidLabel hlabel hname =>
      rw [(h.label _ hlabel).1] at hname
      cases hname
    | labelDefinedTwice hlabel _ hold =>
      obtain ⟨k, hk⟩ := hold
      exact absurd hk ((h.label _ hlabel).2 k)
    | statement _ _ hfailed =>
      rw [← Statement.read_eq_error_iff, hread] at hfailed
      cases hfailed
    | tooLarge => rfl
  · obtain rfl : j = i := Nat.succ.inj hline
    obtain ⟨other, name, opcode, hother, hjump, -⟩ := hfirst.broken
    obtain rfl : line = other := Option.some.inj (h.getElem?.symm.trans hother)
    rw [Statement.read_label_iff.mpr hjump] at hread
    cases hread

end Lines

/-- What becomes of a program with a number in one of its lines. -/
structure NumberJudged (source : List Char) (i bound n : Nat) (text : List Char) : Prop where
  /-- If the line is blamed at all, there is no room left for its byte. -/
  fits : n ≤ bound → ∀ e, assemble source = .error e → e.line = i + 1 →
    e.problem = .programTooLarge
  large : bound < n → n < 2 ^ 32 → assemble source = .error ⟨i + 1, .outOfRange n⟩
  beyond : 2 ^ 32 ≤ n → assemble source = .error ⟨i + 1, .invalidNumber text⟩

/-- **Numbers are held to their range up to the limit of the reader.**  In every
statement that takes a number, in decimal, hexadecimal or binary and with zeros in
front, a number that fits is not refused, a larger one below `2 ^ 32` is out of range
on its line, and one from there on is malformed. -/
theorem numbers_in_range {source : List Char} {i : Nat} {line : SourceLine} {m : Mnemonic}
    {front : List (List Char)} {lead text : List Char} {bound n : Nat}
    (hreached : Reached (SourceLine.ofSource source) i line) (hslot : Slot m front lead bound)
    (htext : NumberText text n)
    (hwritten : Written m (front ++ [lead ++ text]) (lowercase line.body)) :
    NumberJudged source i bound n text := by
  have htrim : trim line.body = line.body := by
    obtain ⟨uncut, -, rfl⟩ := List.mem_map.mp (List.mem_of_getElem? hreached.getElem?)
    exact SourceLine.trim_body uncut
  obtain ⟨byteOf, hread⟩ := hslot.read_eq htext htrim hwritten
  have hbound := hslot.toNat_ofNat
  constructor
  · intro hle e
    rw [htext.number_of_le (hbound.symm ▸ hle)] at hread
    exact hreached.programTooLarge_of_read hread
  · intro hlarge hlimit
    rw [htext.number_of_lt (hbound.symm ▸ hlarge) hlimit] at hread
    exact hreached.assemble_of_read nofun hread
  · intro hbeyond
    rw [htext.number_of_beyond hbeyond] at hread
    exact hreached.assemble_of_read nofun hread

/-- An offset that is too large, with blanks and capitals, on the second line of a
program, behind a label and in front of a comment. -/
theorem numbers_in_range_offset :
    NumberText "0x1f".toList 31 ∧
      NumberJudged "start: nop\nEnd: MOV a ,B + 0X1F; far".toList 1 15 31 "0x1f".toList ∧
      assemble "start: nop\nEnd: MOV a ,B + 0X1F; far".toList = .error ⟨2, .outOfRange 31⟩ := by
  have htext : NumberText "0x1f".toList 31 :=
    .marked .hexadecimal ((natural?_eq_some_iff (by decide)).mp (by decide))
  have hslot : Slot .mov [['a']] ('b' :: ([' '] ++ '+' :: [' '])) 15 :=
    .offset .movAB (by decide) (by decide)
  have hlast : Listed ["b + 0x1f".toList] ([] ++ "b + 0x1f".toList ++ []) :=
    .last (by decide) (by decide)
  have hlisted : Listed [['a'], "b + 0x1f".toList] ([] ++ ['a'] ++ [' '] ++ ',' :: _) :=
    .more (by decide) (by decide) hlast
  have hwritten : Written .mov _ ([] ++ Mnemonic.text .mov ++ [' '] ++ _) :=
    .operands (by decide) (by decide) (by decide) hlisted
  have hfirst : ∀ problem, ¬ LineFault [] ⟨some "start".toList, "nop".toList⟩ problem := by
    intro problem hfault
    cases hfault with
    | invalidLabel hlabel hname =>
      cases hlabel
      cases hname
    | labelDefinedTwice _ _ hold =>
      obtain ⟨_, _, hline, _⟩ := hold
      cases hline
    | statement _ _ hfault => cases Statement.read_eq_error_iff.mpr hfault
    | tooLarge _ _ _ hfull => cases hfull
  have hreached : Reached (SourceLine.ofSource "start: nop\nEnd: MOV a ,B + 0X1F; far".toList) 1
      ⟨some "end".toList, "MOV a ,B + 0X1F".toList⟩ := by
    refine ⟨by decide, ?_, ?_⟩
    · rintro j hj problem ⟨line, hline, hfault⟩
      obtain rfl : j = 0 := by omega
      cases hline
      exact hfirst problem hfault
    · rintro name ⟨⟩
      refine ⟨by decide, ?_⟩
      rintro k ⟨line, hline, hlabel⟩
      rcases k with _ | k
      · cases hline
        cases hlabel
      · cases hline
  have hjudged := numbers_in_range hreached hslot htext hwritten
  exact ⟨htext, hjudged, hjudged.large (by decide) (by decide)⟩

/-- The smallest number that is too large for the reader is malformed and not out of
range, though its digits are those of a number. -/
theorem beyond_word_malformed :
    NumberText "4294967296".toList 4294967296 ∧ 255 < 4294967296 ∧
      assemble "db 4294967296".toList = .error ⟨1, .invalidNumber "4294967296".toList⟩ ∧
      ∀ value, assemble "db 4294967296".toList ≠ .error ⟨1, .outOfRange value⟩ := by
  have herror : assemble "db 4294967296".toList
      = .error ⟨1, .invalidNumber "4294967296".toList⟩ := by
    decide
  refine ⟨.decimal ((natural?_eq_some_iff (by decide)).mp (by decide)), by decide, herror, ?_⟩
  intro value h
  cases herror.symm.trans h

end Assembly
end TD4
