/-
Reading statements.

A statement is a mnemonic, a blank and operands between commas.  `Means` says
what a mnemonic with its operands stands for; that is just what is read
(`Statement.means_of_ofOperands`, `Statement.ofOperands_of_means`).

* `Statement.read_writeStatement`: a statement written out is read with these
  operands in lower case;
* `Statement.read_label_iff`: the statements that leave their low nibble to a
  label are the jumps whose operand is an identifier, and their byte is the
  bare opcode of the jump;
* `colon_not_mem_of_read`: no statement that is read has a colon in it, so the
  text of a statement is never taken for a label when it stands alone.
-/
import TD4.Assembly.Statement
import TD4.Proofs.Assembly.Operand
import TD4.Proofs.Text.Lowercase
import TD4.Proofs.Text.Pieces

namespace TD4
namespace Assembly

open Text

/-! ### Words -/

@[simp] theorem Mnemonic.ofText?_text (m : Mnemonic) : Mnemonic.ofText? m.text = some m := by
  cases m <;> rfl

theorem Mnemonic.text_of_ofText? {text : List Char} {m : Mnemonic}
    (h : Mnemonic.ofText? text = some m) : m.text = text := by
  have := List.find?_some h
  exact beq_iff_eq.mp this

/-- The operands of a mnemonic are what stands behind the first blank. -/
theorem parts_words {word args : List Char} (hword : ∀ c ∈ word, isBlank c = false)
    (hargs : trim args = args) :
    parts (word ++ ' ' :: args) = (lowercase word, operands (lowercase args)) := by
  have hrest : EndsWord (' ' :: args) := .cons rfl
  have hblank : ∀ c ∈ [' '], isBlank c = true := fun c hc => by
    rw [List.mem_singleton.mp hc]
    rfl
  have htrim : trim (' ' :: args) = args := (trim_blanks_append hblank).trans hargs
  rw [parts, takeWhile_word hword hrest, dropWhile_word hword hrest, htrim]

theorem Mnemonic.isValueChar_of_mem_text {m : Mnemonic} {c : Char} (h : c ∈ m.text) :
    isValueChar c = true := by
  have hall : m.text.all isValueChar = true := by
    cases m <;> decide
  exact List.all_eq_true.mp hall c h

theorem Mnemonic.isBlank_of_mem_text {m : Mnemonic} {c : Char} (h : c ∈ m.text) :
    isBlank c = false :=
  isBlank_of_isValueChar (Mnemonic.isValueChar_of_mem_text h)

theorem Mnemonic.lowercase_text (m : Mnemonic) : lowercase m.text = m.text := by
  cases m <;> rfl

/-! ### Statements written out -/

/-- A text without blanks and commas that may be an operand. -/
def IsWord (text : List Char) : Prop := text ≠ [] ∧ ∀ c ∈ text, isValueChar c = true

namespace IsWord

variable {text : List Char}

theorem isBlank (h : IsWord text) : ∀ c ∈ text, isBlank c = false := fun c hc =>
  isBlank_of_isValueChar (h.2 c hc)

theorem comma_not_mem (h : IsWord text) : ',' ∉ text := fun hmem =>
  absurd (h.2 ',' hmem) (by decide)

theorem trim_eq (h : IsWord text) : trim text = text := trim_of_forall h.isBlank

theorem map_toLower (h : IsWord text) : IsWord (text.map Char.toLower) := by
  refine ⟨by simpa using h.1, fun c hc => ?_⟩
  obtain ⟨d, hd, rfl⟩ := List.mem_map.mp hc
  exact isValueChar_toLower (h.2 d hd)

end IsWord

/-- Operands with a comma and a blank between them. -/
def writeOperands (front : List (List Char)) (last : List Char) : List Char :=
  front.flatMap (fun word => word ++ ", ".toList) ++ last

/-- A statement with operands, as one writes it. -/
def writeStatement (m : Mnemonic) (front : List (List Char)) (last : List Char) : List Char :=
  m.text ++ ' ' :: writeOperands front last

theorem writeOperands_cons (word : List Char) (front : List (List Char)) (last : List Char) :
    writeOperands (word :: front) last = word ++ ',' :: ([' '] ++ writeOperands front last) := by
  simp [writeOperands]

/-- The pieces between the commas are the operands.  The induction lets blanks
stand in front, as they do in every piece but the first. -/
theorem map_trim_splitOn_writeOperands {front : List (List Char)} {last : List Char}
    (hfront : ∀ word ∈ front, IsWord word) (hlast : IsWord last) {blanks : List Char}
    (hblanks : ∀ c ∈ blanks, isBlank c = true) :
    ((blanks ++ writeOperands front last).splitOn ',').map trim = front ++ [last] := by
  -- no piece is cut in two
  have hcomma : ∀ {blanks word : List Char}, (∀ c ∈ blanks, isBlank c = true) → IsWord word →
      ',' ∉ blanks ++ word := by
    intro blanks word hblanks hword hmem
    rcases List.mem_append.mp hmem with h | h
    · cases hblanks ',' h
    · exact hword.comma_not_mem h
  induction front generalizing blanks with
  | nil =>
    rw [writeOperands, List.flatMap_nil, List.nil_append,
      List.splitOn_eq_singleton (hcomma hblanks hlast), List.map_singleton,
      trim_blanks_append hblanks, hlast.trim_eq, List.nil_append]
  | cons word front ih =>
    obtain ⟨hword, hrest⟩ := List.forall_mem_cons.mp hfront
    have hblank : ∀ c ∈ [' '], isBlank c = true := fun c hc => by
      rw [List.mem_singleton.mp hc]
      rfl
    rw [writeOperands_cons, ← List.append_assoc,
      List.splitOn_append_cons_self_of_not_mem (hcomma hblanks hword), List.map_cons,
      ih hrest hblank, trim_blanks_append hblanks, hword.trim_eq, List.cons_append]

theorem writeOperands_ne_nil {front : List (List Char)} {last : List Char} (h : IsWord last) :
    writeOperands front last ≠ [] := by
  simp [writeOperands, h.1]

theorem operands_writeOperands {front : List (List Char)} {last : List Char}
    (hfront : ∀ word ∈ front, IsWord word) (hlast : IsWord last) :
    operands (writeOperands front last) = front ++ [last] := by
  rw [operands, if_neg (by simpa using writeOperands_ne_nil hlast)]
  have hblanks : ∀ c ∈ ([] : List Char), isBlank c = true := by simp
  exact map_trim_splitOn_writeOperands hfront hlast hblanks

theorem trim_writeOperands {front : List (List Char)} {last : List Char}
    (hfront : ∀ word ∈ front, IsWord word) (hlast : IsWord last) :
    trim (writeOperands front last) = writeOperands front last := by
  rcases front with _ | ⟨word, front⟩
  · exact hlast.trim_eq
  · -- the first word begins with no blank, and the last one ends with none
    have hword : IsWord word := hfront word List.mem_cons_self
    obtain ⟨c, rest, rfl⟩ := List.exists_cons_of_ne_nil hword.1
    have hc : isBlank c = false := hword.isBlank c List.mem_cons_self
    rw [writeOperands, List.flatMap_cons, List.cons_append, List.cons_append]
    exact trim_append hc hlast.1 hlast.trim_eq

theorem mem_writeOperands {front : List (List Char)} {last : List Char} {c : Char}
    (hfront : ∀ word ∈ front, IsWord word) (hlast : IsWord last)
    (hc : c ∈ writeOperands front last) : isValueChar c = true ∨ c = ',' ∨ c = ' ' := by
  rcases List.mem_append.mp hc with hmem | hmem
  · obtain ⟨word, hword, hmem⟩ := List.mem_flatMap.mp hmem
    rcases List.mem_append.mp hmem with hmem | hmem
    · exact Or.inl ((hfront word hword).2 c hmem)
    · right
      simpa using hmem
  · exact Or.inl (hlast.2 c hmem)

theorem lowercase_writeOperands {front : List (List Char)} {last : List Char}
    (hfront : ∀ word ∈ front, IsWord word) (hlast : IsWord last) :
    lowercase (writeOperands front last)
      = writeOperands (front.map (List.map Char.toLower)) (last.map Char.toLower) := by
  have hascii : ∀ c ∈ writeOperands front last, c.val < 0x80 := by
    intro c hc
    rcases mem_writeOperands hfront hlast hc with hvalue | rfl | rfl
    · exact ascii_of_isValueChar hvalue
    · decide
    · decide
  rw [lowercase_ascii hascii, writeOperands, writeOperands, List.map_append, List.map_flatMap,
    List.flatMap_map]
  simp

/-- A statement that is written out is read with its operands in lower case. -/
theorem Statement.read_writeStatement (m : Mnemonic) {front : List (List Char)} {last : List Char}
    (hfront : ∀ word ∈ front, IsWord word) (hlast : IsWord last) :
    Statement.read (writeStatement m front last)
      = Statement.ofOperands m (front.map (List.map Char.toLower) ++ [last.map Char.toLower]) := by
  have hlower : ∀ word ∈ front.map (List.map Char.toLower), IsWord word := by
    intro word hword
    obtain ⟨upper, hmem, rfl⟩ := List.mem_map.mp hword
    exact (hfront upper hmem).map_toLower
  have hparts : parts (writeStatement m front last)
      = (m.text, front.map (List.map Char.toLower) ++ [last.map Char.toLower]) := by
    rw [writeStatement, parts_words (fun c hc => Mnemonic.isBlank_of_mem_text hc)
      (trim_writeOperands hfront hlast), Mnemonic.lowercase_text,
      lowercase_writeOperands hfront hlast, operands_writeOperands hlower hlast.map_toLower]
  rw [Statement.read, hparts]
  simp

theorem trim_writeStatement (m : Mnemonic) {front : List (List Char)} {last : List Char}
    (hfront : ∀ word ∈ front, IsWord word) (hlast : IsWord last) :
    trim (writeStatement m front last) = writeStatement m front last := by
  obtain ⟨c, rest, htext⟩ : ∃ c rest, m.text ++ [' '] = c :: rest := by
    cases m <;> exact ⟨_, _, rfl⟩
  have hc : isBlank c = false := by
    refine Mnemonic.isBlank_of_mem_text (m := m) ?_
    cases m <;> (cases htext; decide)
  rw [writeStatement, show m.text ++ ' ' :: writeOperands front last
      = c :: rest ++ writeOperands front last from by rw [← htext]; simp]
  exact trim_append hc (writeOperands_ne_nil hlast) (trim_writeOperands hfront hlast)

/-! ### The forms of a statement -/

/-- The operations whose last operand is a number, with their mnemonic and the
operands in front of the number. -/
inductive NumberForm : Mnemonic → List (List Char) → Operation → Prop
  | addA : NumberForm .add [['a']] .addA
  | addB : NumberForm .add [['b']] .addB
  | movA : NumberForm .mov [['a']] .movA
  | movB : NumberForm .mov [['b']] .movB
  | out : NumberForm .output [] .out
  | jnc : NumberForm .jnc [] .jnc
  | jmp : NumberForm .jmp [] .jmp

/-- The operations whose last operand is a register with an offset. -/
inductive OffsetForm : Mnemonic → List (List Char) → Char → Operation → Prop
  | movAB : OffsetForm .mov [['a']] 'b' .movAB
  | movBA : OffsetForm .mov [['b']] 'a' .movBA
  | inA : OffsetForm .input [] 'a' .inA
  | inB : OffsetForm .input [] 'b' .inB
  | outB : OffsetForm .output [] 'b' .outB

section Forms

variable {m : Mnemonic} {front : List (List Char)} {register : Char} {op : Operation}

/-- The operands in front of the last one are register names. -/
theorem NumberForm.front_eq (h : NumberForm m front op) :
    ∀ word ∈ front, word = ['a'] ∨ word = ['b'] := by
  cases h <;> simp

theorem OffsetForm.front_eq (h : OffsetForm m front register op) :
    ∀ word ∈ front, word = ['a'] ∨ word = ['b'] := by
  cases h <;> simp

theorem OffsetForm.register_eq (h : OffsetForm m front register op) :
    register = 'a' ∨ register = 'b' := by
  cases h <;> simp

theorem isWord_singleton {c : Char} (h : isValueChar c = true) : IsWord [c] := by
  refine ⟨List.cons_ne_nil _ _, fun d hd => ?_⟩
  rw [List.mem_singleton.mp hd]
  exact h

theorem isWord_of_front (h : ∀ word ∈ front, word = ['a'] ∨ word = ['b']) :
    ∀ word ∈ front, IsWord word := by
  intro word hword
  rcases h word hword with rfl | rfl
  · exact isWord_singleton rfl
  · exact isWord_singleton rfl

theorem map_toLower_front (h : ∀ word ∈ front, word = ['a'] ∨ word = ['b']) :
    front.map (List.map Char.toLower) = front := by
  refine (List.map_congr_left fun word hword => ?_).trans (List.map_id front)
  rcases h word hword with rfl | rfl <;> rfl

end Forms

/-- The operations that take a label. -/
inductive JumpForm : Mnemonic → Operation → Prop
  | jnc : JumpForm .jnc .jnc
  | jmp : JumpForm .jmp .jmp

/-- What a mnemonic with its operands stands for. -/
inductive Means : Mnemonic → List (List Char) → Statement → Prop
  | nop : Means .nop [] ⟨0, none⟩
  | data {text : List Char} {byte : UInt8} (hvalue : number 255 text = .ok byte) :
      Means .data [text] ⟨byte, none⟩
  | number {m : Mnemonic} {front : List (List Char)} {op : Operation} {text : List Char}
      {imm : UInt8} (hform : NumberForm m front op) (hvalue : number 15 text = .ok imm) :
      Means m (front ++ [text]) ⟨Instruction.encode ⟨op, imm⟩, none⟩
  | offset {m : Mnemonic} {front : List (List Char)} {register : Char} {op : Operation}
      {text : List Char} {offset : Option (List Char)} {imm : UInt8}
      (hform : OffsetForm m front register op) (hoffset : offsetOf? register text = some offset)
      (hvalue : offsetValue offset = .ok imm) :
      Means m (front ++ [text]) ⟨Instruction.encode ⟨op, imm⟩, none⟩
  | label {m : Mnemonic} {op : Operation} {name : List Char} (hform : JumpForm m op)
      (hname : isIdentifier name = true) :
      Means m [name] ⟨Instruction.encode ⟨op, 0⟩, some name⟩

theorem Statement.ofImmediate_ok {op : Operation} {imm? : Except Problem UInt8} {s : Statement}
    (h : Statement.ofImmediate op imm? = .ok s) :
    ∃ imm, imm? = .ok imm ∧ s = ⟨Instruction.encode ⟨op, imm⟩, none⟩ := by
  unfold Statement.ofImmediate at h
  split at h
  case h_1 imm =>
    cases h
    exact ⟨imm, rfl, rfl⟩
  case h_2 => cases h

theorem means_of_withNumber {m : Mnemonic} {front : List (List Char)} {op : Operation}
    {text : List Char} {s : Statement} (hform : NumberForm m front op)
    (h : Statement.withNumber op text = .ok s) : Means m (front ++ [text]) s := by
  obtain ⟨imm, himm, rfl⟩ := Statement.ofImmediate_ok h
  exact .number hform himm

theorem means_of_withOffset {m : Mnemonic} {front : List (List Char)} {register : Char}
    {op : Operation} {text : List Char} {offset : Option (List Char)} {s : Statement}
    (hform : OffsetForm m front register op) (hoffset : offsetOf? register text = some offset)
    (h : Statement.withOffset op offset = .ok s) : Means m (front ++ [text]) s := by
  obtain ⟨imm, himm, rfl⟩ := Statement.ofImmediate_ok h
  exact .offset hform hoffset himm

theorem means_of_jumpTo {m : Mnemonic} {op : Operation} {text : List Char} {s : Statement}
    (hjump : JumpForm m op) (hnumber : NumberForm m [] op)
    (h : Statement.jumpTo op text = .ok s) : Means m [text] s := by
  rw [Statement.jumpTo] at h
  split at h
  case h_1 name hread =>
    cases h
    obtain ⟨rfl, hname⟩ := Value.eq_of_read_label hread
    exact .label hjump hname
  case h_2 => exact means_of_withNumber hnumber h
  case h_3 => cases h

/-- What is read from a mnemonic with its operands is what they stand for. -/
theorem Statement.means_of_ofOperands {m : Mnemonic} {args : List (List Char)} {s : Statement}
    (h : Statement.ofOperands m args = .ok s) : Means m args s := by
  unfold Statement.ofOperands at h
  split at h
  case h_1 value =>
    split at h
    case h_1 byte hvalue =>
      cases h
      exact .data hvalue
    case h_2 => cases h
  case h_2 => cases h
  case h_3 =>
    cases h
    exact .nop
  case h_4 register imm =>
    split at h
    case isTrue ha =>
      subst ha
      exact means_of_withNumber .addA h
    case isFalse =>
      split at h
      case isTrue hb =>
        subst hb
        exact means_of_withNumber .addB h
      case isFalse => cases h
  case h_5 register source =>
    split at h
    case isTrue ha =>
      subst ha
      split at h
      case h_1 offset hoffset => exact means_of_withOffset .movAB hoffset h
      case h_2 => exact means_of_withNumber .movA h
    case isFalse =>
      split at h
      case isTrue hb =>
        subst hb
        split at h
        case h_1 offset hoffset => exact means_of_withOffset .movBA hoffset h
        case h_2 => exact means_of_withNumber .movB h
      case isFalse => cases h
  case h_6 register =>
    split at h
    case h_1 offset hoffset => exact means_of_withOffset .inA hoffset h
    case h_2 offset _ hoffset => exact means_of_withOffset .inB hoffset h
    case h_3 => cases h
  case h_7 source =>
    split at h
    case h_1 offset hoffset => exact means_of_withOffset .outB hoffset h
    case h_2 => exact means_of_withNumber .out h
  case h_8 target => exact means_of_jumpTo .jnc .jnc h
  case h_9 target => exact means_of_jumpTo .jmp .jmp h
  case h_10 => cases h

/-- A mnemonic with its operands is read as what it stands for. -/
theorem Statement.ofOperands_of_means {m : Mnemonic} {args : List (List Char)} {s : Statement}
    (h : Means m args s) : Statement.ofOperands m args = .ok s := by
  cases h with
  | nop => rfl
  | data hvalue => simp [Statement.ofOperands, hvalue]
  | @number _ front op text imm hform hvalue =>
    -- a number is never taken for a register or a label
    have hnumber : Statement.withNumber op text = .ok ⟨Instruction.encode ⟨op, imm⟩, none⟩ := by
      rw [Statement.withNumber, hvalue, Statement.ofImmediate]
    have hnot : ∀ {register : Char}, register.isDigit = false → offsetOf? register text = none :=
      fun hregister => offsetOf?_of_number hregister hvalue
    obtain ⟨n, hread⟩ := read_number_of_number hvalue
    cases hform with
    | addA => exact hnumber
    | addB => exact hnumber
    | movA => simp [Statement.ofOperands, hnot, hnumber]
    | movB => simp [Statement.ofOperands, hnot, hnumber]
    | out => simp [Statement.ofOperands, hnot, hnumber]
    | jnc => simp [Statement.ofOperands, Statement.jumpTo, hread, hnumber]
    | jmp => simp [Statement.ofOperands, Statement.jumpTo, hread, hnumber]
  | @offset _ front register op text offset imm hform hoffset hvalue =>
    have hwith : Statement.withOffset op offset = .ok ⟨Instruction.encode ⟨op, imm⟩, none⟩ := by
      rw [Statement.withOffset, hvalue, Statement.ofImmediate]
    cases hform with
    | movAB => simp [Statement.ofOperands, hoffset, hwith]
    | movBA => simp [Statement.ofOperands, hoffset, hwith]
    | inA => simp [Statement.ofOperands, hoffset, hwith]
    | inB =>
      -- an operand that begins with `b` does not begin with `a`
      obtain ⟨rest, rfl, -⟩ := eq_of_offsetOf? hoffset
      have hnot : offsetOf? 'a' ('b' :: rest) = none := offsetOf?_of_head_ne (by decide) rest
      simp [Statement.ofOperands, hnot, hoffset, hwith]
    | outB => simp [Statement.ofOperands, hoffset, hwith]
  | label hform hname =>
    have hread := Value.read_identifier hname
    cases hform with
    | jnc => simp [Statement.ofOperands, Statement.jumpTo, hread]
    | jmp => simp [Statement.ofOperands, Statement.jumpTo, hread]

/-- A statement that is read begins with a mnemonic. -/
theorem Statement.parts_of_read {body : List Char} {s : Statement}
    (h : Statement.read body = .ok s) :
    ∃ m args, parts body = (m.text, args) ∧ Means m args s := by
  rw [Statement.read] at h
  split at h
  case h_1 word args hparts =>
    split at h
    case h_1 m hm =>
      refine ⟨m, args, ?_, Statement.means_of_ofOperands h⟩
      rw [hparts, Mnemonic.text_of_ofText? hm]
    case h_2 => cases h

/-- A text with these parts is read as what they stand for. -/
theorem Statement.read_of_parts {body : List Char} {m : Mnemonic} {args : List (List Char)}
    {s : Statement} (hparts : parts body = (m.text, args)) (hmeans : Means m args s) :
    Statement.read body = .ok s := by
  rw [Statement.read, hparts]
  simp only [Mnemonic.ofText?_text]
  exact Statement.ofOperands_of_means hmeans

/-! ### Jumps to labels -/

/-- A text is a jump to a label; the byte is the opcode of the jump with a zero
in its low nibble. -/
inductive LabelJump (body name : List Char) : UInt8 → Prop
  | jnc (hparts : parts body = ("jnc".toList, [name])) (hname : isIdentifier name = true) :
      LabelJump body name 0xE0
  | jmp (hparts : parts body = ("jmp".toList, [name])) (hname : isIdentifier name = true) :
      LabelJump body name 0xF0

/-- The low nibble of the byte is free for an address. -/
theorem LabelJump.toNat_or {body name : List Char} {opcode : UInt8}
    (h : LabelJump body name opcode) :
    ∀ address ≤ 15, (opcode ||| UInt8.ofNat address).toNat / 16 = opcode.toNat / 16 ∧
      (opcode ||| UInt8.ofNat address).toNat % 16 = address := by
  cases h <;> decide

theorem Statement.read_jump {body name : List Char} {m : Mnemonic} {op : Operation}
    (hjump : JumpForm m op) (hparts : parts body = (m.text, [name]))
    (hname : isIdentifier name = true) :
    Statement.read body = .ok ⟨Instruction.encode ⟨op, 0⟩, some name⟩ :=
  Statement.read_of_parts hparts (.label hjump hname)

/-- The statements that wait for a label are the jumps to labels. -/
theorem Statement.read_label_iff {body name : List Char} {byte : UInt8} :
    Statement.read body = .ok ⟨byte, some name⟩ ↔ LabelJump body name byte := by
  constructor
  · intro h
    obtain ⟨m, args, hparts, hmeans⟩ := Statement.parts_of_read h
    cases hmeans with
    | label hform hname =>
      cases hform with
      | jnc => exact .jnc hparts hname
      | jmp => exact .jmp hparts hname
  · rintro (⟨hparts, hname⟩ | ⟨hparts, hname⟩)
    · exact Statement.read_jump .jnc hparts hname
    · exact Statement.read_jump .jmp hparts hname

/-! ### The characters of a statement -/

/-- An operand of a statement that is read has only blanks and the characters
of numbers and labels. -/
theorem mem_of_means {m : Mnemonic} {args : List (List Char)} {s : Statement}
    (h : Means m args s) : ∀ arg ∈ args, ∀ c ∈ arg, isBlank c = true ∨ isValueChar c = true := by
  intro arg harg c hc
  cases h with
  | nop => exact absurd harg List.not_mem_nil
  | data hvalue =>
    rw [List.mem_singleton.mp harg] at hc
    exact Or.inr (mem_of_number hvalue c hc)
  | number hform hvalue =>
    rcases List.mem_append.mp harg with hfront | hlast
    · exact Or.inr ((isWord_of_front hform.front_eq arg hfront).2 c hc)
    · rw [List.mem_singleton.mp hlast] at hc
      exact Or.inr (mem_of_number hvalue c hc)
  | @offset _ front register _ _ _ _ hform hoffset hvalue =>
    rcases List.mem_append.mp harg with hfront | hlast
    · exact Or.inr ((isWord_of_front hform.front_eq arg hfront).2 c hc)
    · have hr : isValueChar register = true := by
        rcases hform.register_eq with rfl | rfl <;> rfl
      rw [List.mem_singleton.mp hlast] at hc
      exact mem_of_offsetValue hr hoffset hvalue c hc
  | label _ hname =>
    rw [List.mem_singleton.mp harg] at hc
    right
    simp [isValueChar, mem_of_isIdentifier hname c hc]

theorem mem_operands {text : List Char} {c : Char} (h : c ∈ text) (hblank : isBlank c = false)
    (hcomma : c ≠ ',') : ∃ arg ∈ operands text, c ∈ arg := by
  have hne : text ≠ [] := List.ne_nil_of_mem h
  obtain ⟨piece, hpiece, hc⟩ := exists_mem_splitOn h hcomma
  rw [operands, if_neg (by simpa using hne)]
  exact ⟨trim piece, List.mem_map_of_mem hpiece, (mem_trim_iff hblank).mpr hc⟩

/-- No statement that is read has a colon in it. -/
theorem colon_not_mem_of_read {body : List Char} {s : Statement}
    (h : Statement.read body = .ok s) : ':' ∉ body := by
  intro hcolon
  obtain ⟨m, args, hparts, hmeans⟩ := Statement.parts_of_read h
  have hword : lowercase (body.takeWhile fun c => !isBlank c) = m.text := congrArg Prod.fst hparts
  have hargs : operands (lowercase (trim (body.dropWhile fun c => !isBlank c))) = args :=
    congrArg Prod.snd hparts
  have hascii : ':'.val < 0x80 := by decide
  rw [← List.takeWhile_append_dropWhile (p := fun c => !isBlank c) (l := body)] at hcolon
  rcases List.mem_append.mp hcolon with hfront | hback
  · -- in the mnemonic
    have hlower := toLower_mem_lowercase hascii hfront
    rw [hword] at hlower
    revert hlower
    cases m <;> decide
  · -- in the operands
    have htrim := (mem_trim_iff (c := ':') rfl).mpr hback
    have hlower : ':' ∈ lowercase (trim (body.dropWhile fun c => !isBlank c)) :=
      toLower_mem_lowercase hascii htrim
    obtain ⟨arg, harg, hc⟩ := mem_operands hlower rfl (by decide)
    rw [hargs] at harg
    rcases mem_of_means hmeans arg harg ':' hc with hblank | hvalue
    · cases hblank
    · cases hvalue

end Assembly
end TD4
