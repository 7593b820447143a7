/-
A listing assembles to what it lists.

Writer and reader meet in the forms of a statement: what is printed for a byte
is a mnemonic with operands that mean the byte (`exists_means`).  So every
line of a listing is a line with a statement and a comment, and puts its byte
into the program (`plainLine_line`), whatever lines stand before it.

`round_trip` is the main statement: the first lines of a listing assemble to
the first bytes of the ROM, the whole listing to the ROM, and the listing of a
program to the program with zeros behind it.
-/
import TD4.Listing
import TD4.Proofs.Assembly.TwoPasses
import TD4.Proofs.Rom
import Mathlib.Data.List.Forall2

namespace TD4

open Text Assembly

/-! ### Operations as they are printed -/

theorem isWord_decimal (n : Nat) : IsWord (decimal n) :=
  ⟨decimal_ne_nil n, fun _ hc => isValueChar_of_isAlphanum (isAlphanum_of_mem_decimal hc)⟩

namespace Operation

/-- An operation has an immediate that is an operand, or one that is an offset. -/
theorem form (op : Operation) :
    (op.takesOperand = true ∧ ∃ m front, NumberForm m front op) ∨
      (op.takesOperand = false ∧ ∃ m front register, OffsetForm m front register op) := by
  cases op with
  | addA => exact Or.inl ⟨rfl, _, _, .addA⟩
  | movAB => exact Or.inr ⟨rfl, _, _, _, .movAB⟩
  | inA => exact Or.inr ⟨rfl, _, _, _, .inA⟩
  | movA => exact Or.inl ⟨rfl, _, _, .movA⟩
  | movBA => exact Or.inr ⟨rfl, _, _, _, .movBA⟩
  | addB => exact Or.inl ⟨rfl, _, _, .addB⟩
  | inB => exact Or.inr ⟨rfl, _, _, _, .inB⟩
  | movB => exact Or.inl ⟨rfl, _, _, .movB⟩
  | outB => exact Or.inr ⟨rfl, _, _, _, .outB⟩
  | out => exact Or.inl ⟨rfl, _, _, .out⟩
  | jnc => exact Or.inl ⟨rfl, _, _, .jnc⟩
  | jmp => exact Or.inl ⟨rfl, _, _, .jmp⟩

theorem text_append {m : Mnemonic} {front : List (List Char)} {op : Operation}
    (h : NumberForm m front op) (last : List Char) :
    op.text ++ last = writeStatement m front last := by
  cases h <;> rfl

theorem text_append_register {m : Mnemonic} {front : List (List Char)} {register : Char}
    {op : Operation} (h : OffsetForm m front register op) (rest : List Char) :
    op.text ++ rest = writeStatement m front (register :: rest) := by
  cases h <;> rfl

end Operation

theorem Instruction.decode_ok {byte : UInt8} {i : Instruction}
    (h : Instruction.decode byte = .ok i) :
    Operation.ofOpcode? (Instruction.split byte).1 = some i.operation ∧
      i.immediate = (Instruction.split byte).2 := by
  unfold Instruction.decode Instruction.ofParts at h
  split at h
  case h_1 op hop =>
    cases h
    exact ⟨hop, rfl⟩
  case h_2 => cases h

namespace Listing

/-! ### The statement of a byte -/

/-- What is behind a register: an offset, or nothing for zero. -/
def offsetText (imm : UInt8) : List Char :=
  if imm = 0 then [] else '+' :: decimal imm.toNat

theorem withOffset_eq (text : List Char) (imm : UInt8) :
    withOffset text imm = text ++ offsetText imm := by
  unfold withOffset offsetText
  split
  · rw [List.append_nil]
  · rfl

theorem isWord_offsetText {register : Char} (h : register = 'a' ∨ register = 'b') (imm : UInt8) :
    IsWord (register :: offsetText imm) := by
  refine ⟨List.cons_ne_nil _ _, fun c hc => ?_⟩
  rcases List.mem_cons.mp hc with rfl | hc
  · rcases h with rfl | rfl <;> rfl
  · rw [offsetText] at hc
    split at hc
    · exact absurd hc List.not_mem_nil
    · rcases List.mem_cons.mp hc with rfl | hc
      · rfl
      · exact (isWord_decimal _).2 c hc

theorem map_toLower_offsetText (imm : UInt8) :
    (offsetText imm).map Char.toLower = offsetText imm := by
  rw [offsetText]
  split
  · rfl
  · rw [List.map_cons, map_toLower_decimal, show '+'.toLower = '+' from rfl]

/-- A printed offset is read as the number it stands for. -/
theorem offsetValue_offsetText (register : Char) {imm : UInt8} (himm : imm.toNat ≤ 15) :
    ∃ offset, offsetOf? register (register :: offsetText imm) = some offset ∧
      offsetValue offset = .ok imm := by
  rw [offsetText]
  split
  case isTrue hzero =>
    subst hzero
    exact ⟨none, offsetOf?_register register, rfl⟩
  case isFalse =>
    refine ⟨some (decimal imm.toNat), offsetOf?_plus register (isWord_decimal _).trim_eq, ?_⟩
    rw [offsetValue, number_decimal himm, UInt8.ofNat_toNat]

/-- What is printed for a byte other than zero is a mnemonic with operands, and
these stand for the byte. -/
theorem exists_means {byte : UInt8} (hne : byte ≠ 0) :
    ∃ m front last, statement byte = writeStatement m front last ∧
      (∀ word ∈ front, IsWord word) ∧ IsWord last ∧
      Means m (front.map (List.map Char.toLower) ++ [last.map Char.toLower]) ⟨byte, none⟩ := by
  rcases hdecode : Instruction.decode byte with fault | ⟨op, imm⟩
  · -- an unused opcode is written as data
    refine ⟨.data, [], '0' :: 'x' :: hexByte byte, ?_, by simp, ?_, ?_⟩
    · rw [statement, hdecode]
      rfl
    · refine ⟨List.cons_ne_nil _ _, fun c hc => isValueChar_of_isAlphanum ?_⟩
      rcases List.mem_cons.mp hc with rfl | hc
      · rfl
      · rcases List.mem_cons.mp hc with rfl | hc
        · rfl
        · exact isAlphanum_of_mem_hexByte hc
    · exact .data (number_hexByte byte)
  · obtain ⟨hop, himm⟩ := Instruction.decode_ok hdecode
    have hencode : Instruction.encode ⟨op, imm⟩ = byte := Instruction.encode_of_decode hdecode
    have hle : imm.toNat ≤ 15 := by
      rw [show imm = Nibble.low byte from himm]
      have := Nibble.toNat_low_lt byte
      omega
    -- the two ways to print an immediate
    have hstatement : statement byte =
        if op.takesOperand then op.text ++ decimal imm.toNat else op.text ++ offsetText imm := by
      rw [statement, hdecode]
      simp only [disassemble, if_neg hne, hop, withOffset_eq]
      rw [show (Instruction.split byte).2 = imm from himm.symm]
    rcases op.form with ⟨htakes, m, front, hform⟩ | ⟨htakes, m, front, register, hform⟩
    · refine ⟨m, front, decimal imm.toNat, ?_, isWord_of_front hform.front_eq,
        isWord_decimal _, ?_⟩
      · rw [hstatement, if_pos htakes, Operation.text_append hform]
      · have hvalue : number 15 (decimal imm.toNat) = .ok imm := by
          rw [number_decimal (by exact hle), UInt8.ofNat_toNat]
        rw [map_toLower_front hform.front_eq, map_toLower_decimal, ← hencode]
        exact .number hform hvalue
    · obtain ⟨offset, hoffset, hvalue⟩ := offsetValue_offsetText register hle
      refine ⟨m, front, register :: offsetText imm, ?_, isWord_of_front hform.front_eq,
        isWord_offsetText hform.register_eq imm, ?_⟩
      · rw [hstatement, if_neg (by simp [htakes]), Operation.text_append_register hform]
      · have hregister : register.toLower = register := by
          rcases hform.register_eq with rfl | rfl <;> rfl
        rw [map_toLower_front hform.front_eq, List.map_cons, hregister, map_toLower_offsetText,
          ← hencode]
        exact .offset hform hoffset hvalue

theorem read_statement (byte : UInt8) : Statement.read (statement byte) = .ok ⟨byte, none⟩ := by
  by_cases hzero : byte = 0
  · subst hzero
    rfl
  · obtain ⟨m, front, last, hstatement, hfront, hlast, hmeans⟩ := exists_means hzero
    rw [hstatement, Statement.read_writeStatement m hfront hlast]
    exact Statement.ofOperands_of_means hmeans

theorem trim_statement (byte : UInt8) : trim (statement byte) = statement byte := by
  by_cases hzero : byte = 0
  · subst hzero
    rfl
  · obtain ⟨m, front, last, hstatement, hfront, hlast, -⟩ := exists_means hzero
    rw [hstatement, trim_writeStatement m hfront hlast]

theorem mem_statement {byte : UInt8} {c : Char} (hc : c ∈ statement byte) :
    isValueChar c = true ∨ c = ',' ∨ c = ' ' := by
  by_cases hzero : byte = 0
  · subst hzero
    exact Or.inl (Mnemonic.isValueChar_of_mem_text (m := .nop) hc)
  · obtain ⟨m, front, last, hstatement, hfront, hlast, -⟩ := exists_means hzero
    rw [hstatement] at hc
    rcases List.mem_append.mp hc with hmem | hmem
    · exact Or.inl (Mnemonic.isValueChar_of_mem_text hmem)
    · rcases List.mem_cons.mp hmem with rfl | hmem
      · exact Or.inr (Or.inr rfl)
      · exact mem_writeOperands hfront hlast hmem

/-! ### The lines -/

/-- A line is a statement between blanks, with a comment behind it. -/
theorem line_eq (addr : Nat) (byte : UInt8) :
    line addr byte = "    ".toList ++ statement byte
      ++ (List.replicate (12 - (statement byte).length) ' ' ++ [' '])
      ++ ';' :: (' ' :: padStart 2 '0' (decimal addr) ++ ": ".toList ++ hexByte byte) := by
  calc line addr byte
      = "    ".toList ++ padEnd 12 (statement byte) ++ " ; ".toList
        ++ padStart 2 '0' (decimal addr) ++ ": ".toList ++ hexByte byte := rfl
    _ = _ := by simp [padEnd]

theorem plainLine_line (addr : Nat) (byte : UInt8) : Draft.PlainLine (line addr byte) byte := by
  refine ⟨statement byte, ?_, read_statement byte⟩
  rw [line_eq]
  refine SourceLine.ofText_comment ?_ ?_ ?_ ?_ (trim_statement byte) _
  · intro c hc
    rw [show "    ".toList = List.replicate 4 ' ' from rfl] at hc
    rw [List.eq_of_mem_replicate hc]
    rfl
  · intro c hc
    rcases List.mem_append.mp hc with hpad | hlast
    · rw [List.eq_of_mem_replicate hpad]
      rfl
    · rw [List.mem_singleton.mp hlast]
      rfl
  · intro hmem
    rcases mem_statement hmem with h | h | h <;> cases h
  · exact colon_not_mem_of_read (read_statement byte)

theorem line_break_not_mem_line (addr : Nat) (byte : UInt8) : '\n' ∉ line addr byte := by
  have hstatement : '\n' ∉ statement byte := by
    intro hmem
    rcases mem_statement hmem with h | h | h <;> cases h
  have hdecimal : '\n' ∉ decimal addr := by
    intro hmem
    cases isAlphanum_of_mem_decimal hmem
  have hbyte : '\n' ∉ hexByte byte := by
    intro hmem
    cases isAlphanum_of_mem_hexByte hmem
  simp [line_eq, padStart, hstatement, hdecimal, hbyte]

theorem line_break_not_mem_header : ∀ text ∈ header, '\n' ∉ text := by
  decide

theorem line_break_not_mem_ofRom (rom : Rom) : ∀ text ∈ ofRom rom, '\n' ∉ text := by
  intro text htext
  rcases List.mem_append.mp htext with hheader | hline
  · exact line_break_not_mem_header text hheader
  · obtain ⟨⟨addr, byte⟩, -, rfl⟩ := List.mem_map.mp hline
    exact line_break_not_mem_line addr byte

theorem splitOn_text (rom : Rom) : (text rom).splitOn '\n' = ofRom rom ++ [[]] :=
  splitOn_flatMap_append (line_break_not_mem_ofRom rom)

theorem ofText_header : ∀ text ∈ header, SourceLine.ofText text = ⟨none, []⟩ := by
  decide

theorem plainLine_entries (rom : Rom) :
    List.Forall₂ Draft.PlainLine (rom.entries.map fun (addr, byte) => line addr byte)
      rom.bytes := by
  have hbytes : rom.bytes = rom.entries.map Prod.snd := by
    rw [Rom.entries, List.map_snd_zip]
    rw [Rom.length_bytes, List.length_range]
  rw [hbytes, List.forall₂_map_left_iff, List.forall₂_map_right_iff, List.forall₂_same]
  intro entry _
  exact plainLine_line entry.1 entry.2

/-! ### The whole listing -/

/-- The first lines of a listing, as a text. -/
def firstLines (rom : Rom) (n : Nat) : List Char :=
  ['\n'].intercalate (((text rom).splitOn '\n').take n)

/-- The first pass over the beginning of a listing.  Behind the lines of the 16
addresses there is only the empty line that the last line break leaves. -/
theorem addLines_take (rom : Rom) (k : Nat) :
    Draft.empty.addLines 1 ((ofRom rom ++ [[]]).take (3 + k))
      = .ok ⟨rom.bytes.take k, [], []⟩ := by
  have hplain := plainLine_entries rom
  set lines := rom.entries.map fun (addr, byte) => line addr byte with hlines
  have hlength : lines.length = 16 := by
    rw [hplain.length_eq, Rom.length_bytes]
  -- the header is three lines, so `k` counts the lines behind it
  have htake : (ofRom rom ++ [[]]).take (3 + k)
      = header ++ (lines.take k ++ [[]].take (k - 16)) := by
    rw [show ofRom rom ++ [[]] = header ++ (lines ++ [[]]) from List.append_assoc _ _ _,
      show 3 + k = header.length + k from rfl, List.take_length_add_append, List.take_append,
      hlength]
  have hroom : Draft.empty.code.length + (rom.bytes.take k).length ≤ Rom.size := by
    rw [List.length_take, Rom.length_bytes]
    show 0 + min k 16 ≤ 16
    omega
  have hblank : ∀ text ∈ [([] : List Char)].take (k - 16), SourceLine.ofText text = ⟨none, []⟩ := by
    intro text htext
    rw [List.mem_singleton.mp (List.mem_of_mem_take htext)]
    rfl
  rw [htake, Draft.addLines_append, Draft.addLines_blank ofText_header]
  simp only
  rw [Draft.addLines_append, Draft.addLines_plain (List.forall₂_take k hplain) hroom]
  simp only
  rw [Draft.addLines_blank hblank]
  rfl

theorem assemble_firstLines (rom : Rom) (k : Nat) :
    assemble (firstLines rom (3 + k)) = .ok (rom.bytes.take k) := by
  have hbreak : ∀ text ∈ (ofRom rom ++ [[]]).take (3 + k), '\n' ∉ text := by
    intro text htext
    rcases List.mem_append.mp (List.mem_of_mem_take htext) with hline | hlast
    · exact line_break_not_mem_ofRom rom text hline
    · rw [List.mem_singleton.mp hlast]
      exact List.not_mem_nil
  have hne : (ofRom rom ++ [[]]).take (3 + k) ≠ [] := by
    simp [ofRom, header, Nat.add_comm 3 k]
  have hsource : Draft.ofSource (firstLines rom (3 + k)) = .ok ⟨rom.bytes.take k, [], []⟩ := by
    rw [Draft.ofSource, firstLines, splitOn_text, List.splitOn_intercalate '\n' hbreak hne]
    exact addLines_take rom k
  rw [assemble, hsource]
  rfl

theorem firstLines_all (rom : Rom) : firstLines rom (3 + 17) = text rom := by
  have hlength : ((text rom).splitOn '\n').length = 3 + 17 := by
    rw [splitOn_text]
    simp [ofRom, header, Rom.entries]
  rw [firstLines, List.take_of_length_le (Nat.le_of_eq hlength), List.intercalate_splitOn]

theorem assemble_text (rom : Rom) : assemble (text rom) = .ok rom.bytes := by
  have h := assemble_firstLines rom 17
  rwa [firstLines_all, List.take_of_length_le (by simp)] at h

/-! ### Programs in a ROM -/

theorem assembleRom_text (rom : Rom) : assembleRom (text rom) = .ok rom := by
  rw [assembleRom, assemble_text]
  exact congrArg Except.ok (Rom.ofImage_bytes rom)

theorem assemble_text_of_assemble {source : List Char} {bytes : List UInt8}
    (h : assemble source = .ok bytes) :
    ∃ rom, assembleRom source = .ok rom ∧
      assemble (text rom) = .ok (bytes ++ List.replicate (16 - bytes.length) 0) := by
  refine ⟨Rom.ofImage bytes, by rw [assembleRom, h]; rfl, ?_⟩
  rw [assemble_text, Rom.bytes_ofImage_eq (length_le_of_assemble h)]
  rfl

/-- **A listing assembles to what it lists.**  The first lines of a listing, down to
any address, assemble to the first bytes of the ROM; the whole listing assembles
to the ROM; and the listing of a program assembles to the program, filled up
with zeros. -/
theorem round_trip :
    (∀ rom k, assemble (firstLines rom (3 + k)) = .ok (rom.bytes.take k)) ∧
      (∀ rom, assembleRom (text rom) = .ok rom) ∧
      ∀ source bytes, assemble source = .ok bytes →
        ∃ rom, assembleRom source = .ok rom ∧
          assemble (text rom) = .ok (bytes ++ List.replicate (16 - bytes.length) 0) :=
  ⟨assemble_firstLines, assembleRom_text, fun _ _ => assemble_text_of_assemble⟩

/-- The listing of a program with a label, an offset and an unused opcode. -/
theorem round_trip_program :
    ∃ rom, assembleRom "back: out b+3\ndb 0xC5\njnc back".toList = .ok rom ∧
      assemble (text rom) = .ok ([0x93, 0xC5, 0xE0] ++ List.replicate 13 0) :=
  round_trip.2.2 "back: out b+3\ndb 0xC5\njnc back".toList [0x93, 0xC5, 0xE0] (by decide)

end Listing
end TD4
