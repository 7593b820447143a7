/-
Both passes together.

`Assembled source bytes` says what the bytes of a program are, going by the
lines of its text: nothing in it speaks of a patch or a placeholder.
`assembled_of_assemble` is the main statement: whatever assembles is assembled
in this sense.

A label may be defined in front of its use, behind it or on the same line; the
statement makes no difference between them.
-/
import TD4.Proofs.Assembly.FirstPass
import TD4.Proofs.Assembly.PlainLine
import TD4.Proofs.Assembly.SecondPass

namespace TD4
namespace Assembly

namespace Draft

variable {d : Draft} {lines : List SourceLine} {line : SourceLine} {out : List UInt8} {i : Nat}

theorem Holds.indexes_distinct (hd : Holds d lines) :
    d.fixups.Pairwise fun f g => f.index ≠ g.index :=
  hd.fixups_sorted.imp fun h => Nat.ne_of_lt h.1

/-- The byte of a jump to a label carries the address of the label. -/
theorem Holds.resolve_jump {name : List Char} {opcode : UInt8} (hd : Holds d lines)
    (hout : d.resolve = .ok out) (hline : lines[i]? = some line)
    (hjump : LabelJump line.body name opcode) :
    ∃ j, DefinedAt lines name j ∧ addressOf lines j < Rom.size ∧
      out[addressOf lines i]? = some (opcode ||| UInt8.ofNat (addressOf lines j)) := by
  have hfixup : ⟨addressOf lines i, name, i + 1⟩ ∈ d.fixups :=
    (hd.mem_fixups_iff _).mpr ⟨i, line, opcode, hline, hjump, rfl, rfl⟩
  obtain ⟨address, htarget⟩ := target_of_applyFixups hout _ hfixup
  obtain ⟨haddress, hlt⟩ := target_ok_iff.mp htarget
  obtain ⟨j, hj, rfl⟩ := (hd.address?_iff name address).mp haddress
  -- the byte before the patch is the bare opcode
  obtain ⟨s, hread, hbyte⟩ := hd.byte i line hline (emits_of_labelJump hjump)
  have hsame := hread.symm.trans (Statement.read_label_iff.mpr hjump)
  cases hsame
  refine ⟨j, hj, hlt, ?_⟩
  rw [getElem?_applyFixups hout hd.indexes_distinct hfixup htarget, hbyte]
  rfl

/-- The byte of any other line is that of its statement. -/
theorem Holds.resolve_other (hd : Holds d lines) (hout : d.resolve = .ok out)
    (hline : lines[i]? = some line) (hemits : line.emits = true)
    (hplain : ∀ name opcode, ¬ LabelJump line.body name opcode) :
    ∃ byte, Statement.read line.body = .ok ⟨byte, none⟩ ∧
      out[addressOf lines i]? = some byte := by
  obtain ⟨⟨byte, target⟩, hread, hbyte⟩ := hd.byte i line hline hemits
  have htarget : target = none := by
    rcases target with _ | name
    · rfl
    · exact absurd (Statement.read_label_iff.mp hread) (hplain name byte)
  subst htarget
  -- a fixup of this byte would belong to this line, which is no jump to a label
  have hne : ∀ fixup ∈ d.fixups, fixup.index ≠ addressOf lines i := by
    intro fixup hmem hindex
    obtain ⟨k, other, opcode, hother, hjump, hplace, -⟩ := (hd.mem_fixups_iff fixup).mp hmem
    have hik : k = i :=
      addressOf_inj hother hline (emits_of_labelJump hjump) hemits (hplace.symm.trans hindex)
    subst hik
    rw [hline] at hother
    cases hother
    exact hplain _ _ hjump
  exact ⟨byte, hread, (getElem?_applyFixups_of_ne hout hne).trans hbyte⟩

end Draft

theorem assemble_ok {source : List Char} {bytes : List UInt8} (h : assemble source = .ok bytes) :
    ∃ d, Draft.ofSource source = .ok d ∧ d.resolve = .ok bytes := by
  rw [assemble] at h
  split at h
  case h_1 d hd => exact ⟨d, hd, h⟩
  case h_2 => cases h

theorem length_eq_of_assemble {source : List Char} {bytes : List UInt8}
    (h : assemble source = .ok bytes) :
    bytes.length = (SourceLine.ofSource source).countP SourceLine.emits := by
  obtain ⟨d, hd, hbytes⟩ := assemble_ok h
  rw [Draft.length_applyFixups hbytes, (Draft.holds_of_ofSource hd).length_code]

/-- A program is at most as long as the ROM. -/
theorem length_le_of_assemble {source : List Char} {bytes : List UInt8}
    (h : assemble source = .ok bytes) : bytes.length ≤ Rom.size := by
  obtain ⟨d, hd, hbytes⟩ := assemble_ok h
  rw [Draft.length_applyFixups hbytes]
  exact (Draft.holds_of_ofSource hd).length_le

/-- The statement of a line, standing alone, assembles to its byte. -/
theorem assemble_body {source : List Char} {line : SourceLine} {i : Nat} {byte : UInt8}
    (hline : (SourceLine.ofSource source)[i]? = some line)
    (hread : Statement.read line.body = .ok ⟨byte, none⟩) : assemble line.body = .ok [byte] := by
  obtain ⟨text, htext, rfl⟩ := List.mem_map.mp (List.mem_of_getElem? hline)
  have hbreak : '\n' ∉ (SourceLine.ofText text).body := fun hmem =>
    Text.not_mem_of_mem_splitOn htext (SourceLine.mem_of_mem_body hmem).1
  have hcomment : ';' ∉ (SourceLine.ofText text).body := fun hmem =>
    (SourceLine.mem_of_mem_body hmem).2 rfl
  exact assemble_statement hbreak hcomment (SourceLine.trim_body text) hread

/-- The bytes of a program, told by the lines of its text. -/
structure Assembled (source : List Char) (bytes : List UInt8) : Prop where
  /-- There is one byte for each line that holds a statement; `jump` and `other`
  say that they come in the order of the lines. -/
  length_eq : bytes.length = (SourceLine.ofSource source).countP SourceLine.emits
  length_le : bytes.length ≤ 16
  /-- The address of a label is the number of statements in front of the line
  that defines it. -/
  label : ∃ d, Draft.ofSource source = .ok d ∧
    ∀ name j, DefinedAt (SourceLine.ofSource source) name j →
      d.address? name = some (addressOf (SourceLine.ofSource source) j)
  /-- A jump to a label carries the address of the one definition of the label. -/
  jump : ∀ i line name opcode, (SourceLine.ofSource source)[i]? = some line →
    LabelJump line.body name opcode →
      ∃ j, DefinedAt (SourceLine.ofSource source) name j ∧
        (∀ k, DefinedAt (SourceLine.ofSource source) name k → k = j) ∧
        addressOf (SourceLine.ofSource source) j ≤ 15 ∧
        bytes[addressOf (SourceLine.ofSource source) i]?
          = some (opcode ||| UInt8.ofNat (addressOf (SourceLine.ofSource source) j))
  /-- Any other statement gives the byte it gives alone. -/
  other : ∀ i line, (SourceLine.ofSource source)[i]? = some line → line.emits = true →
    (∀ name opcode, ¬ LabelJump line.body name opcode) →
      ∃ byte, bytes[addressOf (SourceLine.ofSource source) i]? = some byte ∧
        assemble line.body = .ok [byte]

/-- **Two passes give the program that the lines describe.** -/
theorem assembled_of_assemble {source : List Char} {bytes : List UInt8}
    (h : assemble source = .ok bytes) : Assembled source bytes := by
  obtain ⟨d, hsource, hbytes⟩ := assemble_ok h
  have hd := Draft.holds_of_ofSource hsource
  have hlength : bytes.length = d.code.length := Draft.length_applyFixups hbytes
  constructor
  · rw [hlength, hd.length_code]
  · exact length_le_of_assemble h
  · refine ⟨d, hsource, fun name j hj => ?_⟩
    exact (hd.address?_iff name _).mpr ⟨j, hj, rfl⟩
  · intro i line name opcode hline hjump
    obtain ⟨j, hj, hlt, hbyte⟩ := hd.resolve_jump hbytes hline hjump
    exact ⟨j, hj, fun k hk => hd.defined_once name k j hk hj, Nat.le_of_lt_succ hlt, hbyte⟩
  · intro i line hline hemits hplain
    obtain ⟨byte, hread, hbyte⟩ := hd.resolve_other hbytes hline hemits hplain
    exact ⟨byte, hbyte, assemble_body hline hread⟩

/-- A loop, a jump to a label behind it and one to a label on its own line. -/
theorem assembled_loop :
    assemble "loop: ADD b, 1\njnc Loop\njmp end ; out: 0\nend: JMP End".toList
        = .ok [0x51, 0xE0, 0xF3, 0xF3] ∧
      Assembled "loop: ADD b, 1\njnc Loop\njmp end ; out: 0\nend: JMP End".toList
        [0x51, 0xE0, 0xF3, 0xF3] := by
  have h : assemble "loop: ADD b, 1\njnc Loop\njmp end ; out: 0\nend: JMP End".toList
      = .ok [0x51, 0xE0, 0xF3, 0xF3] := by decide
  exact ⟨h, assembled_of_assemble h⟩

end Assembly
end TD4
