/-
What a line shows.

The numbers of a line stand in columns of a fixed width, with blanks in front.  What
is in the columns is told by the text of the line, and not by how it is printed:

* `StepLine` is the line of a step that succeeds: its address, its byte and its
  statement, and the registers after it;
* `HaltLine` is the shorter line of the step that halts;
* `RegisterLine` is a register as it is shown after a run.

The columns of a line can be told apart, so a line shows one address, one byte and one
value of each register (`StepLine.unique`).
-/
import TD4.CommandLine.Run
import TD4.CommandLine.Trace
import TD4.Proofs.Cpu.Step
import TD4.Proofs.Text.Positional

namespace TD4
namespace CommandLine

open Text

/-- A number in a column: its digits in a base, with blanks in front. -/
structure Column (base width n : Nat) (text : List Char) : Prop where
  length_eq : text.length = width
  exists_digits : ∃ k digits, text = List.replicate k ' ' ++ digits ∧ Positional base digits n

/-- The line of a step: its address, its byte and its statement, and the registers
after it. -/
inductive StepLine (pc byte : UInt8) (regs : Registers) : List Char → Prop
  | shown {address code a b output : List Char} {k : Nat} (haddress : Column 10 2 pc.toNat address)
      (hcode : Column 16 2 byte.toNat code)
      (hstatement : (Listing.disassemble byte ++ List.replicate k ' ').length = 12)
      (ha : Column 10 2 regs.a.toNat a) (hb : Column 10 2 regs.b.toNat b)
      (houtput : Column 10 2 regs.output.toNat output) :
      StepLine pc byte regs (address ++ ": ".toList ++ code ++ "  ".toList
        ++ (Listing.disassemble byte ++ List.replicate k ' ') ++ " A=".toList ++ a ++ " B=".toList ++ b
        ++ " OUT=".toList ++ output ++ " C=".toList ++ [if regs.carry then '1' else '0'])

/-- The line of a step that halts: its address, and the jump to that very address. -/
inductive HaltLine (pc : UInt8) : List Char → Prop
  | shown {address code target : List Char} (haddress : Column 10 2 pc.toNat address)
      (hcode : Column 16 2 (0xF0 + pc.toNat) code) (htarget : Positional 10 target pc.toNat) :
      HaltLine pc (address ++ ": ".toList ++ code ++ "  jmp ".toList ++ target)

/-- A register after a run, behind a label: in decimal, and by its four bits. -/
inductive RegisterLine (label : String) (x : UInt8) : List Char → Prop
  | shown {value bits : List Char} (hvalue : Column 10 2 x.toNat value)
      (hbits : Positional 2 bits x.toNat) (hfour : bits.length = 4) :
      RegisterLine label x (label.toList ++ value ++ " (".toList ++ bits ++ ")".toList)

/-- A line is there, and its text is of a kind. -/
def Shows (lines : List String) (i : Nat) (kind : List Char → Prop) : Prop :=
  ∃ line, lines[i]? = some line ∧ kind line.toList

/-! ### What the columns say -/

section Columns

variable {base width width' n n' : Nat} {text digits : List Char}

/-- A column holds one number. -/
theorem Column.unique (hbase : base ≤ 16) (h : Column base width n text)
    (h' : Column base width' n' text) : n = n' := by
  obtain ⟨k, digits, htext, hdigits⟩ := h.exists_digits
  obtain ⟨k', digits', htext', hdigits'⟩ := h'.exists_digits
  -- the digits are what is left without the blanks
  have htrim : ∀ {k m : Nat} {digits : List Char}, Positional base digits m →
      trimStart (List.replicate k ' ' ++ digits) = digits := by
    intro k m digits hdigits
    obtain ⟨c, rest, rfl⟩ := List.exists_cons_of_ne_nil hdigits.ne_nil
    obtain ⟨d, hd⟩ := hdigits.digit? hbase c List.mem_cons_self
    have hblank : ∀ c ∈ List.replicate k ' ', isBlank c = true := fun c hc => by
      rw [List.eq_of_mem_replicate hc]
      rfl
    rw [trimStart, List.dropWhile_append_of_pos hblank]
    exact trimStart_of_head (isBlank_of_isAlphanum (isAlphanum_of_digit? hd)) rest
  have heq : digits = digits' := by
    rw [← htrim hdigits, ← htext, htext', htrim hdigits']
  subst heq
  have hread := (natural?_eq_some_iff hbase).mpr hdigits
  rw [(natural?_eq_some_iff hbase).mpr hdigits'] at hread
  exact (Option.some.inj hread).symm

/-- A number is filled up with blanks or with zeros. -/
theorem column_padStart (h : Positional base digits n) (hle : digits.length ≤ width) :
    Column base width n (padStart width ' ' digits) :=
  ⟨length_padStart hle ' ', _, digits, rfl, h⟩

theorem column_zeros (hzero : 0 < base) (hbase : base ≤ 16) (h : Positional base digits n)
    (hle : digits.length ≤ width) : Column base width n (padStart width '0' digits) :=
  ⟨length_padStart hle '0', 0, _, rfl, positional_padStart hzero hbase h width⟩

/-- Where a column of the same width stands last behind the same label, it can be cut off. -/
theorem eq_of_append_column {front front' label column column' : List Char}
    (hlength : column.length = column'.length)
    (h : front ++ label ++ column = front' ++ label ++ column') :
    front = front' ∧ column = column' := by
  obtain ⟨hfront, hcolumn⟩ := List.append_inj' h hlength
  exact ⟨List.append_cancel_right hfront, hcolumn⟩

end Columns

section Lines

variable {pc pc' byte byte' x : UInt8} {regs regs' : Registers} {text : List Char} {cpu : Cpu}

/-- What a line of a step shows is determined by its text. -/
theorem StepLine.unique (h : StepLine pc byte regs text) (h' : StepLine pc' byte' regs' text) :
    (pc = pc' ∧ byte = byte') ∧ regs.a = regs'.a ∧ regs.b = regs'.b ∧
      regs.output = regs'.output ∧ regs.carry = regs'.carry := by
  have hsame : ∀ {base width : Nat} {x y : UInt8} {left right : List Char}, base ≤ 16 →
      Column base width x.toNat left → Column base width y.toNat right → left = right → x = y := by
    rintro base width x y left _ hbase hleft hright rfl
    exact UInt8.toNat_inj.mp (hleft.unique hbase hright)
  cases h with
  | shown haddress hcode hstatement ha hb houtput =>
    generalize htext : _ ++ [_] = text at h'
    cases h' with
    | shown haddress' hcode' hstatement' ha' hb' houtput' =>
      have hwidth : ∀ {base width n m : Nat} {left right : List Char},
          Column base width n left → Column base width m right → left.length = right.length :=
        fun hleft hright => hleft.length_eq.trans hright.length_eq.symm
      -- the columns are cut off from the right
      obtain ⟨htext, hflag⟩ := eq_of_append_column (Eq.refl 1) htext
      obtain ⟨htext, houtputs⟩ := eq_of_append_column (hwidth houtput houtput') htext
      obtain ⟨htext, hbs⟩ := eq_of_append_column (hwidth hb hb') htext
      obtain ⟨htext, has⟩ := eq_of_append_column (hwidth ha ha') htext
      obtain ⟨htext, -⟩ := eq_of_append_column (hstatement.trans hstatement'.symm) htext
      obtain ⟨haddresses, hcodes⟩ := eq_of_append_column (hwidth hcode hcode') htext
      have hcarry : regs.carry = regs'.carry := by
        revert hflag
        cases regs.carry <;> cases regs'.carry <;> decide
      exact ⟨⟨hsame (by decide) haddress haddress' haddresses, hsame (by decide) hcode hcode' hcodes⟩,
        hsame (by decide) ha ha' has, hsame (by decide) hb hb' hbs,
        hsame (by decide) houtput houtput' houtputs, hcarry⟩

theorem length_decimal_le (hx : x.toNat ≤ 15) : (decimal x.toNat).length ≤ 2 :=
  (Nat.length_toDigits_le_iff (by decide) (by decide)).mpr (by omega)

theorem column_inTwo (hx : x.toNat ≤ 15) : Column 10 2 x.toNat (inTwo x).toList := by
  rw [inTwo, String.toList_ofList]
  exact column_padStart (positional_toDigits (by decide) (by decide) _) (length_decimal_le hx)

theorem column_inTwoZeros (hx : x.toNat ≤ 15) : Column 10 2 x.toNat (inTwoZeros x).toList := by
  rw [inTwoZeros, String.toList_ofList]
  exact column_zeros (by decide) (by decide) (positional_toDigits (by decide) (by decide) _)
    (length_decimal_le hx)

theorem column_hexByte (byte : UInt8) : Column 16 2 byte.toNat (hexByte byte) := by
  refine column_zeros (by decide) (by decide) (positional_hexadecimal _) ?_
  rw [hexadecimal, List.length_map]
  exact (Nat.length_toDigits_le_iff (by decide) (by decide)).mpr byte.toNat_lt

/-- The text of a byte fits in its column. -/
theorem length_disassemble_le (byte : UInt8) : (Listing.disassemble byte).length ≤ 12 := by
  have himm := length_decimal_le (Nibble.toNat_low_le byte)
  have hoffset : ∀ text : List Char, text.length ≤ 9 →
      (Listing.withOffset text (Nibble.low byte)).length ≤ 12 := by
    intro text htext
    rw [Listing.withOffset]
    split
    case isTrue => omega
    case isFalse =>
      rw [List.length_append, List.length_cons]
      omega
  rw [Listing.disassemble]
  split
  case isTrue => decide
  case isFalse =>
    simp only [Instruction.split]
    split
    case h_1 => exact hoffset _ (by decide)
    case h_2 op _ =>
      have hop : op.text.length ≤ 9 := by
        cases op <;> decide
      split
      case isTrue =>
        rw [List.length_append]
        omega
      case isFalse => exact hoffset _ hop

/-- What is printed for a step is its line. -/
theorem stepLine_traceLine (hpc : pc.toNat ≤ 15) (byte : UInt8) (hcpu : cpu.regs.Bounded) :
    StepLine pc byte cpu.regs (traceLine pc byte cpu).toList := by
  have hflag : (if cpu.regs.carry then "1" else "0").toList
      = [if cpu.regs.carry then '1' else '0'] := by
    cases cpu.regs.carry <;> rfl
  simp only [traceLine, String.toList_append, String.toList_ofList, hflag]
  refine .shown (column_inTwoZeros hpc) (column_hexByte byte) ?_ (column_inTwo hcpu.a)
    (column_inTwo hcpu.b) (column_inTwo hcpu.output)
  -- the text of the byte is filled up to its column
  have hle := length_disassemble_le byte
  rw [List.length_append, List.length_replicate]
  omega

/-- What is printed for a step that halts is its line. -/
theorem haltLine_haltLine (h : Cpu.isSelfJump pc byte = true) :
    HaltLine pc (haltLine pc byte).toList := by
  have hsplit : Instruction.split byte = (0xF, pc) := beq_iff_eq.mp h
  have hpc : pc.toNat ≤ 15 := by
    have hlow : Nibble.low byte = pc := congrArg Prod.snd hsplit
    rw [← hlow]
    exact Nibble.toNat_low_le byte
  -- the byte is the one of a jump to this address
  have hvalue : byte.toNat = 0xF0 + pc.toNat := by
    have hdecode : Instruction.decode byte = .ok ⟨.jmp, pc⟩ := by
      rw [Instruction.decode, hsplit]
      rfl
    have hbyte := Instruction.toNat_encode ⟨.jmp, pc⟩
    rw [Instruction.encode_of_decode hdecode] at hbyte
    exact hbyte.trans (congrArg (0xF0 + ·) (Nat.mod_eq_of_lt (Nat.lt_succ_of_le hpc)))
  have hne : byte ≠ 0 := by
    rintro rfl
    cases hsplit
  have htext : Listing.disassemble byte = "jmp ".toList ++ decimal pc.toNat := by
    rw [Listing.disassemble, if_neg hne, hsplit]
    rfl
  have hline : (haltLine pc byte).toList
      = (inTwoZeros pc).toList ++ ": ".toList ++ hexByte byte ++ "  jmp ".toList ++ decimal pc.toNat := by
    simp [haltLine, htext]
  rw [hline]
  exact .shown (column_inTwoZeros hpc) (hvalue ▸ column_hexByte byte)
    (positional_toDigits (by decide) (by decide) _)

theorem registerLine_registerText (label : String) (hx : x.toNat ≤ 15) :
    RegisterLine label x (label ++ registerText x).toList := by
  have hbits : (binary x.toNat).length ≤ 4 :=
    (Nat.length_toDigits_le_iff (by decide) (by decide)).mpr (by omega)
  have htext : (label ++ registerText x).toList = label.toList ++ (inTwo x).toList ++ " (".toList
      ++ padStart 4 '0' (binary x.toNat) ++ ")".toList := by
    simp [registerText, inFourBits]
  rw [htext]
  exact .shown (column_inTwo hx)
    (positional_padStart (by decide) (by decide) (positional_toDigits (by decide) (by decide) _) 4)
    (length_padStart hbits '0')

end Lines

end CommandLine
end TD4
