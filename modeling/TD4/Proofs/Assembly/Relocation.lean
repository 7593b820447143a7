/-
One program text behind another.

Two texts that assemble, and that have no label in common, are put together with
a line break between them.  `Joined` says what comes of it, and
`joined_of_assemble` is the main statement: the second program stands behind the
first, with the addresses in its jumps to labels moved, unless the ROM is too
small for both programs or for the address of a label that the second one jumps to.

* A finished program is a map over the lines that put a byte into it
  (`Draft.Holds.eq_map_byteOf`); only the addresses of the labels make a
  difference between a line alone and the same line behind others.
* Two sound texts have no fault together but that there are too many statements
  (`faultAt_append_iff`), and no broken jump but to a label behind the last byte
  of the ROM (`brokenAt_append_iff`).

Numbers and raw bytes stay as they are, even where a number was meant as an
address.
-/
import TD4.Proofs.Assembly.Faults
import TD4.Proofs.Assembly.TwoPasses

namespace TD4
namespace Assembly

variable {front back lines : List SourceLine} {line : SourceLine} {problem : Problem}
  {name : List Char} {i k : Nat}

/-! ### The lines of two texts -/

theorem SourceLine.ofSource_append (front back : List Char) :
    ofSource (front ++ '\n' :: back) = ofSource front ++ ofSource back := by
  rw [ofSource, List.splitOn_append_cons_self, List.map_append]
  rfl

/-- A label stands at an address. -/
def StandsAt (lines : List SourceLine) (name : List Char) (address : Nat) : Prop :=
  ∃ j, DefinedAt lines name j ∧ addressOf lines j = address

theorem StandsAt.append_right {address : Nat} (h : StandsAt front name address)
    (back : List SourceLine) : StandsAt (front ++ back) name address := by
  obtain ⟨j, hj, rfl⟩ := h
  exact ⟨j, definedAt_append_iff.mpr (Or.inl hj), addressOf_append (Nat.le_of_lt hj.lt_length) back⟩

theorem StandsAt.append_left {address : Nat} (h : StandsAt back name address)
    (front : List SourceLine) :
    StandsAt (front ++ back) name (front.countP SourceLine.emits + address) := by
  obtain ⟨j, hj, rfl⟩ := h
  exact ⟨front.length + j, definedAt_append_iff.mpr (Or.inr ⟨j, rfl, hj⟩),
    addressOf_append_length front back j⟩

/-- A line jumps to a label. -/
def JumpsTo (lines : List SourceLine) (i : Nat) (name : List Char) : Prop :=
  ∃ line opcode, lines[i]? = some line ∧ LabelJump line.body name opcode

/-- All labels that the second text jumps to have, among all lines, one of the
addresses of the ROM. -/
def WithinReach (lines back : List SourceLine) : Prop :=
  ∀ k name address, JumpsTo back k name → StandsAt lines name address → address ≤ 15

/-- A line of the second text jumps to a label that stands, among all lines, behind
the last byte of the ROM. -/
def JumpsBehindRom (lines back : List SourceLine) (k : Nat) : Prop :=
  ∃ name, JumpsTo back k name ∧ StandsAt lines name 16

/-- No label is defined in both texts.  Labels are in lower case. -/
def NoCommonLabel (front back : List SourceLine) : Prop :=
  ∀ name ∈ front.filterMap SourceLine.label, name ∉ back.filterMap SourceLine.label

instance (front back : List SourceLine) : Decidable (NoCommonLabel front back) :=
  inferInstanceAs (Decidable (∀ name ∈ front.filterMap SourceLine.label,
    name ∉ back.filterMap SourceLine.label))

theorem NoCommonLabel.not_definedAt (h : NoCommonLabel front back) (hi : DefinedAt front name i) :
    ¬ DefinedAt back name k := by
  have hmem : ∀ {lines : List SourceLine} {i : Nat}, DefinedAt lines name i →
      name ∈ lines.filterMap SourceLine.label := by
    rintro lines i ⟨line, hline, hlabel⟩
    exact List.mem_filterMap.mpr ⟨line, List.mem_of_getElem? hline, hlabel⟩
  exact fun hk => h name (hmem hi) (hmem hk)

/-! ### A program as a map over its lines -/

theorem labelJump_or (body : List Char) : (∃ name opcode, LabelJump body name opcode) ∨
    ∀ name opcode, ¬ LabelJump body name opcode := by
  by_cases h : ∃ name opcode, LabelJump body name opcode
  · exact Or.inl h
  · exact Or.inr fun name opcode hjump => h ⟨name, opcode, hjump⟩

namespace Draft

variable {d : Draft} {out : List UInt8} {opcode byte : UInt8} {address : Nat}

/-- The byte of a line, with the addresses of the labels as a draft has them. -/
def byteOf (d : Draft) (line : SourceLine) : UInt8 :=
  match Statement.read line.body with
  | .ok ⟨byte, some name⟩ => byte ||| UInt8.ofNat ((d.address? name).getD 0)
  | .ok ⟨byte, none⟩ => byte
  | .error _ => 0

theorem byteOf_jump (h : LabelJump line.body name opcode)
    (haddress : d.address? name = some address) :
    d.byteOf line = opcode ||| UInt8.ofNat address := by
  rw [byteOf, Statement.read_label_iff.mpr h]
  simp only [haddress, Option.getD_some]

theorem byteOf_other (h : Statement.read line.body = .ok ⟨byte, none⟩) :
    d.byteOf line = byte := by
  rw [byteOf, h]

theorem Holds.address?_iff_standsAt (hd : Holds d lines) :
    d.address? name = some address ↔ StandsAt lines name address :=
  hd.address?_iff name address

theorem byteOf_eq_of_no_jump (h : ∀ name opcode, ¬ LabelJump line.body name opcode)
    (d other : Draft) : d.byteOf line = other.byteOf line := by
  rw [byteOf, byteOf]
  split
  case h_1 hread => exact absurd (Statement.read_label_iff.mp hread) (h _ _)
  case h_2 => rfl
  case h_3 => rfl

/-- A finished program has the byte of each line that puts one into it, in order. -/
theorem Holds.eq_map_byteOf (hd : Holds d lines) (hout : d.resolve = .ok out) :
    out = (lines.filter SourceLine.emits).map d.byteOf := by
  have hlength : out.length = (lines.filter SourceLine.emits).length := by
    rw [length_applyFixups hout, hd.length_code, List.countP_eq_length_filter]
  refine List.ext_getElem? fun k => ?_
  rw [List.getElem?_map]
  rcases hget : (lines.filter SourceLine.emits)[k]? with _ | line
  · rw [List.getElem?_eq_none_iff] at hget
    exact List.getElem?_eq_none (hlength.le.trans hget)
  · obtain ⟨i, hline, hemits, rfl⟩ := exists_of_getElem?_filter hget
    rw [Option.map_some]
    rcases labelJump_or line.body with ⟨name, opcode, hjump⟩ | hplain
    · obtain ⟨j, hj, -, hbyte⟩ := hd.resolve_jump hout hline hjump
      rw [hbyte, byteOf_jump hjump (hd.address?_iff_standsAt.mpr ⟨j, hj, rfl⟩)]
    · obtain ⟨byte, hread, hbyte⟩ := hd.resolve_other hout hline hemits hplain
      rw [hbyte, byteOf_other hread]

end Draft

/-! ### What goes wrong in two texts together -/

/-- Lines that assemble: no line has a fault, and no jump is broken. -/
structure Sound (lines : List SourceLine) : Prop where
  fault : ∀ i problem, ¬ FaultAt lines i problem
  broken : ∀ i problem, ¬ BrokenAt lines i problem

theorem sound_of_assemble {source : List Char} {bytes : List UInt8}
    (h : assemble source = .ok bytes) : Sound (SourceLine.ofSource source) := by
  have hfault : ∀ i problem, ¬ FaultAt (SourceLine.ofSource source) i problem := by
    intro i problem hfault
    obtain ⟨j, other, hfirst⟩ := exists_firstFault ⟨i, problem, hfault⟩
    cases h.symm.trans (assemble_of_firstFault hfirst rfl)
  refine ⟨hfault, fun i problem hbroken => ?_⟩
  obtain ⟨j, other, hfirst⟩ := exists_firstBroken ⟨i, problem, hbroken⟩
  cases h.symm.trans (assemble_of_firstBroken hfault hfirst)

/-- A label of the second text fits behind the first text if it fits alone. -/
theorem labelFits_append_take (hcommon : NoCommonLabel front back) (hline : back[k]? = some line)
    (h : LabelFits (back.take k) line) : LabelFits (front ++ back.take k) line := by
  intro name hlabel
  obtain ⟨hname, hnew⟩ := h name hlabel
  refine ⟨hname, fun i hi => ?_⟩
  rcases definedAt_append_iff.mp hi with hfront | ⟨j, -, hback⟩
  · exact hcommon.not_definedAt hfront ⟨line, hline, hlabel⟩
  · exact hnew j hback

theorem Sound.no_lineFault (h : Sound lines) (hline : lines[i]? = some line) :
    ∀ problem, ¬ LineFault (lines.take i) line problem :=
  fun problem hfault => h.fault i problem ⟨line, hline, hfault⟩

theorem Sound.countP_le (h : Sound lines) : lines.countP SourceLine.emits ≤ 16 := by
  have hall : addressOf lines lines.length ≤ 16 := addressOf_le_of_no_fault fun j _ => h.fault j
  rwa [addressOf, List.take_length] at hall

/-- A label that is jumped to is defined. -/
theorem Sound.exists_definedAt (h : Sound lines) (hjump : JumpsTo lines i name) :
    ∃ j, DefinedAt lines name j := by
  obtain ⟨line, opcode, hline, hjump⟩ := hjump
  by_contra hnone
  exact h.broken i _ ⟨line, name, opcode, hline, hjump, .undefined (not_exists.mp hnone)⟩

theorem Sound.exists_standsAt {opcode : UInt8} (h : Sound lines) (hline : line ∈ lines)
    (hjump : LabelJump line.body name opcode) :
    ∃ k address, JumpsTo lines k name ∧ StandsAt lines name address := by
  obtain ⟨k, hk⟩ := List.getElem?_of_mem hline
  have hjumps : JumpsTo lines k name := ⟨line, opcode, hk, hjump⟩
  obtain ⟨j, hj⟩ := h.exists_definedAt hjumps
  exact ⟨k, addressOf lines j, hjumps, j, hj, rfl⟩

/-- The only fault is a statement that there is no room for. -/
theorem faultAt_append_iff (hfront : Sound front) (hback : Sound back)
    (hcommon : NoCommonLabel front back) : FaultAt (front ++ back) i problem ↔
      problem = .programTooLarge ∧ ∃ line, (front ++ back)[i]? = some line ∧ line.emits = true ∧
        16 ≤ addressOf (front ++ back) i := by
  constructor
  · rintro ⟨line, hline, hfault⟩
    rcases getElem?_append_iff.mp hline with hold | ⟨k, rfl, hnew⟩
    · have hlt := lt_length_of_getElem? hold
      rw [List.take_append_of_le_length (Nat.le_of_lt hlt)] at hfault
      exact absurd hfault (hfront.no_lineFault hold problem)
    · have hnone := hback.no_lineFault hnew
      have hfits := labelFits_append_take hcommon hnew (labelFits_of_no_fault hnone)
      have htake : (front ++ back).take (front.length + k) = front ++ back.take k :=
        List.take_length_add_append k
      rw [htake] at hfault
      cases hfault with
      | invalidLabel hlabel hname =>
        rw [(hfits _ hlabel).1] at hname
        cases hname
      | labelDefinedTwice hlabel _ hold =>
        obtain ⟨j, hj⟩ := hold
        exact absurd hj ((hfits _ hlabel).2 j)
      | statement _ hemits hwrong => exact absurd hwrong (sound_of_no_fault hnone hemits _)
      | tooLarge _ hemits _ hfull =>
        refine ⟨rfl, line, hline, hemits, ?_⟩
        rwa [addressOf, htake]
  · rintro ⟨rfl, line, hline, hemits, hfull⟩
    refine ⟨line, hline, ?_⟩
    rcases getElem?_append_iff.mp hline with hold | ⟨k, rfl, hnew⟩
    · -- the first text alone has no more than sixteen statements
      have hlt := addressOf_lt hold hemits
      rw [addressOf_append (Nat.le_of_lt (lt_length_of_getElem? hold))] at hfull
      exact absurd hfront.countP_le (by omega)
    · have hnone := hback.no_lineFault hnew
      have hfits := labelFits_append_take hcommon hnew (labelFits_of_no_fault hnone)
      rw [← List.take_length_add_append k] at hfits
      exact .tooLarge hfits hemits (sound_of_no_fault hnone hemits) hfull

/-- The only broken jump is one of the second text to a label that has come to
stand behind the last byte of the ROM. -/
theorem brokenAt_append_iff (hfront : Sound front) (hback : Sound back)
    (hcommon : NoCommonLabel front back) : BrokenAt (front ++ back) i problem ↔
      problem = .outOfRange 16 ∧
        ∃ k, i = front.length + k ∧ JumpsBehindRom (front ++ back) back k := by
  constructor
  · rintro ⟨line, name, opcode, hline, hjump, hunreachable⟩
    rcases getElem?_append_iff.mp hline with hold | ⟨k, rfl, hnew⟩
    · obtain ⟨j, hj⟩ := hfront.exists_definedAt ⟨line, opcode, hold, hjump⟩
      cases hunreachable with
      | undefined hnone => exact absurd (definedAt_append_iff.mpr (Or.inl hj)) (hnone j)
      | @behindRom m hm haddress =>
        rcases definedAt_append_iff.mp hm with hm | ⟨l, -, hl⟩
        · rw [addressOf_append (Nat.le_of_lt hm.lt_length)] at haddress
          exact absurd ⟨line, name, opcode, hold, hjump, .behindRom hm haddress⟩
            (hfront.broken i _)
        · exact absurd hl (hcommon.not_definedAt hj)
    · obtain ⟨j, hj⟩ := hback.exists_definedAt ⟨line, opcode, hnew, hjump⟩
      cases hunreachable with
      | undefined hnone =>
        exact absurd (definedAt_append_iff.mpr (Or.inr ⟨j, rfl, hj⟩)) (hnone _)
      | behindRom hj haddress =>
        exact ⟨rfl, k, rfl, name, ⟨line, opcode, hnew, hjump⟩, _, hj, haddress⟩
  · rintro ⟨rfl, k, rfl, name, ⟨line, opcode, hline, hjump⟩, j, hj, haddress⟩
    exact ⟨line, name, opcode, getElem?_append_iff.mpr (Or.inr ⟨k, rfl, hline⟩), hjump,
      .behindRom hj haddress⟩

theorem no_fault_append (hfront : Sound front) (hback : Sound back)
    (hcommon : NoCommonLabel front back)
    (hroom : (front ++ back).countP SourceLine.emits ≤ 16) (i : Nat) (problem : Problem) :
    ¬ FaultAt (front ++ back) i problem := by
  intro hfault
  obtain ⟨-, line, hline, hemits, hfull⟩ := (faultAt_append_iff hfront hback hcommon).mp hfault
  exact absurd (addressOf_lt hline hemits) (by omega)

/-- The seventeenth statement is the first for which there is no room. -/
theorem exists_firstFault_append (hfront : Sound front) (hback : Sound back)
    (hcommon : NoCommonLabel front back)
    (hlarge : 16 < (front ++ back).countP SourceLine.emits) :
    ∃ i line, (front ++ back)[i]? = some line ∧ line.emits = true ∧
      addressOf (front ++ back) i = 16 ∧ FirstFault (front ++ back) i .programTooLarge := by
  obtain ⟨i, line, hline, hemits, haddress⟩ := exists_addressOf_eq hlarge
  refine ⟨i, line, hline, hemits, haddress, ?_, ?_⟩
  · exact (faultAt_append_iff hfront hback hcommon).mpr
      ⟨rfl, line, hline, hemits, haddress.ge⟩
  · intro j hj other hfault
    obtain ⟨-, earlier, hearlier, hmore, hfull⟩ :=
      (faultAt_append_iff hfront hback hcommon).mp hfault
    exact absurd (addressOf_lt_addressOf hearlier hmore hj) (by omega)

theorem exists_firstBroken_append (hfront : Sound front) (hback : Sound back)
    (hcommon : NoCommonLabel front back) (h : ∃ k, JumpsBehindRom (front ++ back) back k) :
    ∃ k, JumpsBehindRom (front ++ back) back k ∧
      (∀ j < k, ¬ JumpsBehindRom (front ++ back) back j) ∧
      FirstBroken (front ++ back) (front.length + k) (.outOfRange 16) := by
  have hbroken : ∀ j, JumpsBehindRom (front ++ back) back j →
      BrokenAt (front ++ back) (front.length + j) (.outOfRange 16) := fun j hj =>
    (brokenAt_append_iff hfront hback hcommon).mpr ⟨rfl, j, rfl, hj⟩
  obtain ⟨l, hl⟩ := h
  obtain ⟨i, problem, hfirst⟩ := exists_firstBroken ⟨_, _, hbroken l hl⟩
  obtain ⟨rfl, k, rfl, hk⟩ := (brokenAt_append_iff hfront hback hcommon).mp hfirst.broken
  refine ⟨k, hk, fun j hj hbehind => ?_, hfirst⟩
  exact hfirst.first _ (Nat.add_lt_add_left hj _) _ (hbroken j hbehind)

/-! ### The second program in its new place -/

/-- A byte with its low nibble raised, and the same high nibble. -/
structure Raised (n : Nat) (byte moved : UInt8) : Prop where
  high : moved.toNat / 16 = byte.toNat / 16
  low : moved.toNat % 16 = byte.toNat % 16 + n

/-- The byte of a line, and that of the same line `n` places further back.  The low
nibble of a jump to a label is the address of the label; any other byte does not
know where it stands. -/
inductive MovedByte (n : Nat) (line : SourceLine) (byte : UInt8) : UInt8 → Prop
  | jump {name : List Char} {opcode moved : UInt8} (hjump : LabelJump line.body name opcode)
      (hraised : Raised n byte moved) : MovedByte n line byte moved
  | other (hplain : ∀ name opcode, ¬ LabelJump line.body name opcode) : MovedByte n line byte byte

/-- The bytes of lines, and those of the same lines `n` places further back. -/
inductive Moved (n : Nat) : List SourceLine → List UInt8 → List UInt8 → Prop
  | nil : Moved n [] [] []
  | idle {line : SourceLine} {lines : List SourceLine} {bytes moved : List UInt8}
      (hidle : line.emits = false) (hrest : Moved n lines bytes moved) :
      Moved n (line :: lines) bytes moved
  | byte {line : SourceLine} {lines : List SourceLine} {byte movedByte : UInt8}
      {bytes moved : List UInt8} (hemits : line.emits = true)
      (hbyte : MovedByte n line byte movedByte) (hrest : Moved n lines bytes moved) :
      Moved n (line :: lines) (byte :: bytes) (movedByte :: moved)

theorem moved_map {n : Nat} {f g : SourceLine → UInt8}
    (h : ∀ line ∈ lines, MovedByte n line (f line) (g line)) :
    Moved n lines ((lines.filter SourceLine.emits).map f)
      ((lines.filter SourceLine.emits).map g) := by
  induction lines with
  | nil => exact .nil
  | cons line rest ih =>
    obtain ⟨hline, hrest⟩ := List.forall_mem_cons.mp h
    rcases hemits : line.emits with _ | _
    · rw [List.filter_cons_of_neg (by simp [hemits])]
      exact .idle hemits (ih hrest)
    · rw [List.filter_cons_of_pos hemits]
      exact .byte hemits hline (ih hrest)

theorem raised_of_labelJump {body : List Char} {opcode : UInt8} {n address : Nat}
    (h : LabelJump body name opcode) (hle : n + address ≤ 15) :
    Raised n (opcode ||| UInt8.ofNat address) (opcode ||| UInt8.ofNat (n + address)) := by
  obtain ⟨hhigh, hlow⟩ := h.toNat_or address (Nat.le_of_add_left_le hle)
  obtain ⟨hhigh', hlow'⟩ := h.toNat_or (n + address) hle
  exact ⟨hhigh'.trans hhigh.symm, by rw [hlow', hlow, Nat.add_comm]⟩

namespace Draft

variable {d alone : Draft}

theorem byteOf_front (halone : Holds alone front) (hd : Holds d (front ++ back))
    (hfront : Sound front) (hline : line ∈ front) : d.byteOf line = alone.byteOf line := by
  rcases labelJump_or line.body with ⟨name, opcode, hjump⟩ | hplain
  · obtain ⟨-, address, -, hstands⟩ := hfront.exists_standsAt hline hjump
    rw [byteOf_jump hjump (hd.address?_iff_standsAt.mpr (hstands.append_right back)),
      byteOf_jump hjump (halone.address?_iff_standsAt.mpr hstands)]
  · exact byteOf_eq_of_no_jump hplain d alone

theorem movedByte_back (halone : Holds alone back) (hd : Holds d (front ++ back))
    (hback : Sound back) (hreach : WithinReach (front ++ back) back) (hline : line ∈ back) :
    MovedByte (front.countP SourceLine.emits) line (alone.byteOf line) (d.byteOf line) := by
  rcases labelJump_or line.body with ⟨name, opcode, hjump⟩ | hplain
  · obtain ⟨k, address, hjumps, hstands⟩ := hback.exists_standsAt hline hjump
    have hmoved := hstands.append_left front
    rw [byteOf_jump hjump (halone.address?_iff_standsAt.mpr hstands),
      byteOf_jump hjump (hd.address?_iff_standsAt.mpr hmoved)]
    exact .jump hjump (raised_of_labelJump hjump (hreach k name _ hjumps hmoved))
  · rw [byteOf_eq_of_no_jump hplain d alone]
    exact .other hplain

end Draft

/-! ### Both texts in one -/

/-- What comes of two texts in one, told by the lines and the program of each.  The
lines of both are those of the first and then those of the second. -/
structure Joined (front back : List SourceLine) (first second : List UInt8)
    (outcome : Except Error (List UInt8)) : Prop where
  /-- If there is room, the second program stands behind the first. -/
  fits : first.length + second.length ≤ 16 → WithinReach (front ++ back) back →
    ∃ moved, Moved first.length back second moved ∧ outcome = .ok (first ++ moved)
  /-- There may be too many statements: the one after the sixteenth is reported. -/
  tooLarge : 16 < first.length + second.length →
    ∃ i line, (front ++ back)[i]? = some line ∧ line.emits = true ∧
      addressOf (front ++ back) i = 16 ∧ outcome = .error ⟨i + 1, .programTooLarge⟩
  /-- A label at the end of the second program may get out of reach: the first jump
  to such a label is reported. -/
  behindRom : first.length + second.length ≤ 16 →
    (∃ k, JumpsBehindRom (front ++ back) back k) →
    ∃ k, JumpsBehindRom (front ++ back) back k ∧
      (∀ j < k, ¬ JumpsBehindRom (front ++ back) back j) ∧
      outcome = .error ⟨front.length + k + 1, .outOfRange 16⟩

section Joined

variable {front back : List Char} {first second : List UInt8}

theorem exists_moved (hfront : assemble front = .ok first) (hback : assemble back = .ok second)
    (hreach : WithinReach (SourceLine.ofSource front ++ SourceLine.ofSource back)
      (SourceLine.ofSource back))
    {bytes : List UInt8} (hbytes : assemble (front ++ '\n' :: back) = .ok bytes) :
    ∃ moved, Moved first.length (SourceLine.ofSource back) second moved ∧
      bytes = first ++ moved := by
  have hlength := length_eq_of_assemble hfront
  have hsoundFront := sound_of_assemble hfront
  have hsoundBack := sound_of_assemble hback
  obtain ⟨d₁, hd₁, hfirst⟩ := assemble_ok hfront
  obtain ⟨d₂, hd₂, hsecond⟩ := assemble_ok hback
  obtain ⟨d, hd, hboth⟩ := assemble_ok hbytes
  have hholds₁ := Draft.holds_of_ofSource hd₁
  have hholds₂ := Draft.holds_of_ofSource hd₂
  have hholds := Draft.holds_of_ofSource hd
  rw [SourceLine.ofSource_append] at hholds
  refine ⟨((SourceLine.ofSource back).filter SourceLine.emits).map d.byteOf, ?_, ?_⟩
  · rw [hlength, hholds₂.eq_map_byteOf hsecond]
    exact moved_map fun line hline =>
      Draft.movedByte_back hholds₂ hholds hsoundBack hreach hline
  · rw [hholds.eq_map_byteOf hboth, List.filter_append, List.map_append,
      hholds₁.eq_map_byteOf hfirst]
    congr 1
    refine List.map_congr_left fun line hline => ?_
    exact Draft.byteOf_front hholds₁ hholds hsoundFront (List.mem_of_mem_filter hline)

/-- **The second program is moved behind the first.** -/
theorem joined_of_assemble (hfront : assemble front = .ok first)
    (hback : assemble back = .ok second)
    (hcommon : NoCommonLabel (SourceLine.ofSource front) (SourceLine.ofSource back)) :
    Joined (SourceLine.ofSource front) (SourceLine.ofSource back) first second
      (assemble (front ++ '\n' :: back)) := by
  have hsoundFront := sound_of_assemble hfront
  have hsoundBack := sound_of_assemble hback
  have hlines := SourceLine.ofSource_append front back
  have htotal : (SourceLine.ofSource front ++ SourceLine.ofSource back).countP SourceLine.emits
      = first.length + second.length := by
    rw [List.countP_append, length_eq_of_assemble hfront, length_eq_of_assemble hback]
  have hnofault : first.length + second.length ≤ 16 →
      ∀ i problem, ¬ FaultAt (SourceLine.ofSource (front ++ '\n' :: back)) i problem := by
    intro hroom
    rw [hlines]
    exact no_fault_append hsoundFront hsoundBack hcommon (htotal.le.trans hroom)
  constructor
  · intro hroom hreach
    have hnobroken : ∀ i problem,
        ¬ BrokenAt (SourceLine.ofSource (front ++ '\n' :: back)) i problem := by
      intro i problem hbroken
      rw [hlines, brokenAt_append_iff hsoundFront hsoundBack hcommon] at hbroken
      obtain ⟨-, k, -, name, hjump, hstands⟩ := hbroken
      exact absurd (hreach k name 16 hjump hstands) (by decide)
    obtain ⟨bytes, hbytes⟩ := exists_assemble (hnofault hroom) hnobroken
    obtain ⟨moved, hmoved, rfl⟩ := exists_moved hfront hback hreach hbytes
    exact ⟨moved, hmoved, hbytes⟩
  · intro hlarge
    obtain ⟨i, line, hline, hemits, haddress, hfault⟩ :=
      exists_firstFault_append hsoundFront hsoundBack hcommon (htotal ▸ hlarge)
    rw [← hlines] at hfault
    exact ⟨i, line, hline, hemits, haddress, assemble_of_firstFault hfault rfl⟩
  · intro hroom hbehind
    obtain ⟨k, hk, hearlier, hbroken⟩ :=
      exists_firstBroken_append hsoundFront hsoundBack hcommon hbehind
    rw [← hlines] at hbroken
    exact ⟨k, hk, hearlier, assemble_of_firstBroken (hnofault hroom) hbroken⟩

/-- Two loops.  The jump to a number in the second stays as it is. -/
theorem joined_loops :
    Joined (SourceLine.ofSource "loop: add a, 1\njnc Loop".toList)
      (SourceLine.ofSource "jmp end\njmp 1\nstart: out b\nend: jmp START".toList)
      [0x01, 0xE0] [0xF3, 0xF1, 0x90, 0xF2] (.ok [0x01, 0xE0, 0xF5, 0xF1, 0x90, 0xF4]) := by
  have hfront : assemble "loop: add a, 1\njnc Loop".toList = .ok [0x01, 0xE0] := by decide
  have hback : assemble "jmp end\njmp 1\nstart: out b\nend: jmp START".toList
      = .ok [0xF3, 0xF1, 0x90, 0xF2] := by decide
  have hboth : assemble ("loop: add a, 1\njnc Loop".toList ++ '\n' ::
      "jmp end\njmp 1\nstart: out b\nend: jmp START".toList)
      = .ok [0x01, 0xE0, 0xF5, 0xF1, 0x90, 0xF4] := by decide
  rw [← hboth]
  exact joined_of_assemble hfront hback (by decide)

end Joined

/-- Sixteen statements fit, but the label behind them is out of reach. -/
example : assemble ("nop\nnop\nnop\nnop\nnop\nnop\nnop\nnop\nnop\nnop\nnop\nnop\nnop\nnop".toList
    ++ '\n' :: "jmp over\nnop\nover:".toList) = .error ⟨15, .outOfRange 16⟩ := by
  decide

end Assembly
end TD4
