/-
What the first pass leaves for the second.

The second pass takes the fixups as they are: it does not look whether a fixup names
a byte of the program, or whether another one names it too.  It need not, since the
first pass leaves a draft that is `Patchable`.

* `Holds.exists_opcode`: the byte of a fixup is the bare opcode of its jump;
* `Holds.patchable`: what all the fixups and addresses are like;
* `Holds.patches`: a fixup, whichever others were carried out before it, puts the
  address of its label into the low nibble of its own byte and does nothing else.

`fixups_sound` puts this together for program texts, and adds that the fixups of a
program that is finished could be carried out in any order.
-/
import TD4.Proofs.Assembly.TwoPasses

namespace TD4
namespace Assembly
namespace Draft

variable {d : Draft} {lines : List SourceLine} {fixup : Fixup} {order done rest : List Fixup}
  {code out : List UInt8} {source : List Char}

/-- A draft that the second pass can work on without a look at it. -/
structure Patchable (d : Draft) : Prop where
  length_le : d.code.length ≤ 16
  indexes_increase : d.fixups.Pairwise fun f g => f.index < g.index
  lines_increase : d.fixups.Pairwise fun f g => f.line ≤ g.line
  index_lt : ∀ fixup ∈ d.fixups, fixup.index < d.code.length
  /-- Each fixup names a jump whose low nibble is still zero. -/
  opcode : ∀ fixup ∈ d.fixups,
    d.code[fixup.index]? = some 0xE0 ∨ d.code[fixup.index]? = some 0xF0
  /-- The address of a label is that of a byte or the one behind the last byte, and
  fits in a cell. -/
  address : ∀ name address, d.address? name = some address →
    address ≤ d.code.length ∧ (UInt8.ofNat address).toNat = address

/-- To carry out a fixup on these bytes changes one of them, which the draft has there
too: the address of the label is put into the low nibble of the opcode. -/
structure Patches (d : Draft) (fixup : Fixup) (code : List UInt8) : Prop where
  index_lt : fixup.index < code.length
  untouched : code[fixup.index]? = d.code[fixup.index]?
  nibble : ∀ address, d.target fixup = .ok address → ∃ opcode patched : UInt8,
    code[fixup.index]? = some opcode ∧
      patch code fixup.index address = code.set fixup.index patched ∧
      patched.toNat / 16 = opcode.toNat / 16 ∧ patched.toNat % 16 = address

/-! ### The draft of a text -/

/-- A fixup names the byte of a jump to its label, and this is the bare opcode. -/
theorem Holds.exists_opcode (hd : Holds d lines) (hmem : fixup ∈ d.fixups) :
    ∃ line ∈ lines, ∃ opcode, LabelJump line.body fixup.label opcode ∧
      d.code[fixup.index]? = some opcode := by
  obtain ⟨i, line, opcode, hline, hjump, hindex, -⟩ := (hd.mem_fixups_iff fixup).mp hmem
  obtain ⟨s, hread, hbyte⟩ := hd.byte i line hline (emits_of_labelJump hjump)
  have hsame := hread.symm.trans (Statement.read_label_iff.mpr hjump)
  cases hsame
  exact ⟨line, List.mem_of_getElem? hline, opcode, hjump, by rw [hindex, hbyte]⟩

theorem Holds.patchable (hd : Holds d lines) : Patchable d where
  length_le := hd.length_le
  indexes_increase := hd.fixups_sorted.imp fun h => h.1
  lines_increase := hd.fixups_sorted.imp fun h => Nat.le_of_lt h.2
  index_lt _ hmem := (hd.fixup_lt hmem).1
  opcode fixup hmem := by
    obtain ⟨_, _, opcode, hjump, hbyte⟩ := hd.exists_opcode hmem
    cases hjump with
    | jnc => exact .inl hbyte
    | jmp => exact .inr hbyte
  address name address haddress := by
    obtain ⟨j, -, rfl⟩ := (hd.address?_iff name address).mp haddress
    -- the lines before a definition are among all lines
    have hle : addressOf lines j ≤ d.code.length := by
      rw [hd.length_code]
      exact (List.take_sublist j lines).countP_le
    have hsmall : addressOf lines j ≤ 16 := hle.trans hd.length_le
    exact ⟨hle, UInt8.toNat_ofNat_of_lt' (Nat.lt_of_le_of_lt hsmall (by decide))⟩

/-- A fixup puts the address of its label into the low nibble of its own byte, whatever
other fixups were carried out before. -/
theorem Holds.patches (hd : Holds d lines) (horder : (done ++ fixup :: rest).Perm d.fixups)
    (hdone : d.applyFixups done d.code = .ok code) : Patches d fixup code := by
  have hmem : fixup ∈ d.fixups := horder.mem_iff.mp (by simp)
  have hdistinct : (done ++ fixup :: rest).Pairwise fun f g => f.index ≠ g.index :=
    (horder.pairwise_iff Ne.symm).mpr hd.indexes_distinct
  have huntouched : code[fixup.index]? = d.code[fixup.index]? :=
    getElem?_applyFixups_of_ne hdone fun other hother =>
      (List.pairwise_append.mp hdistinct).2.2 other hother fixup List.mem_cons_self
  obtain ⟨_, _, opcode, hjump, hbyte⟩ := hd.exists_opcode hmem
  refine ⟨?_, huntouched, fun address htarget => ?_⟩
  · rw [length_applyFixups hdone]
    exact (hd.fixup_lt hmem).1
  · obtain ⟨hhigh, hlow⟩ := hjump.toNat_or address (Nat.le_of_lt_succ (target_ok_iff.mp htarget).2)
    rw [hbyte] at huntouched
    refine ⟨opcode, opcode ||| UInt8.ofNat address, huntouched, ?_, hhigh, hlow⟩
    rw [patch, List.modify_eq_set_getElem?, huntouched]
    rfl

end Draft

open Draft in
/-- **The fixups that the first pass leaves are sound.**  They name distinct bytes of
the program, in the order of the lines, each of them a jump whose low nibble is zero.
In whatever order they are carried out, each finds its byte as the first pass left it
and puts the address of its label into the low nibble.  A program that is finished has
just these bytes changed, and every order gives it. -/
theorem fixups_sound {source : List Char} {d : Draft} (h : ofSource source = .ok d) :
    Patchable d ∧
      (∀ done fixup rest code, (done ++ fixup :: rest).Perm d.fixups →
        d.applyFixups done d.code = .ok code → Patches d fixup code) ∧
      ∀ out, d.resolve = .ok out →
        (∀ i, (∀ fixup ∈ d.fixups, fixup.index ≠ i) → out[i]? = d.code[i]?) ∧
        (∀ fixup ∈ d.fixups, ∃ address opcode patched, d.address? fixup.label = some address ∧
          d.code[fixup.index]? = some opcode ∧ out[fixup.index]? = some patched ∧
          patched.toNat / 16 = opcode.toNat / 16 ∧ patched.toNat % 16 = address) ∧
        ∀ order, order.Perm d.fixups → d.applyFixups order d.code = .ok out := by
  have hd := holds_of_ofSource h
  refine ⟨hd.patchable, fun _ _ _ _ => hd.patches, fun out hout => ⟨fun i hi => ?_,
    fun fixup hmem => ?_, fun order horder => ?_⟩⟩
  · exact getElem?_applyFixups_of_ne hout hi
  · obtain ⟨address, htarget⟩ := target_of_applyFixups hout fixup hmem
    obtain ⟨haddress, hlt⟩ := target_ok_iff.mp htarget
    obtain ⟨_, _, opcode, hjump, hbyte⟩ := hd.exists_opcode hmem
    obtain ⟨hhigh, hlow⟩ := hjump.toNat_or address (Nat.le_of_lt_succ hlt)
    refine ⟨address, opcode, opcode ||| UInt8.ofNat address, haddress, hbyte, ?_, hhigh, hlow⟩
    rw [getElem?_applyFixups hout hd.indexes_distinct hmem htarget, hbyte]
    rfl
  · exact applyFixups_perm hd.indexes_distinct horder hout

open Draft in
/-- A jump forward and one back, carried out from the last to the first. -/
theorem fixups_sound_backwards :
    ∃ d, ofSource "a: jmp B\nnop\njnc a\nb: nop".toList = .ok d ∧ Patchable d ∧
      d.fixups = [⟨0, ['b'], 1⟩, ⟨2, ['a'], 3⟩] ∧
      d.applyFixups d.fixups.reverse d.code = .ok [0xF3, 0x00, 0xE0, 0x00] := by
  have h : ofSource "a: jmp B\nnop\njnc a\nb: nop".toList
      = .ok ⟨[0xF0, 0x00, 0xE0, 0x00], [(['a'], 0), (['b'], 3)],
        [⟨0, ['b'], 1⟩, ⟨2, ['a'], 3⟩]⟩ := by
    decide
  have hsound := fixups_sound h
  exact ⟨_, h, hsound.1, rfl, (hsound.2.2 _ (by decide)).2.2 _ (List.reverse_perm _)⟩

end Assembly
end TD4
