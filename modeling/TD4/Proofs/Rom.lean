/-
The store over its whole history.

An edit writes a byte, loads an image, or clears the store, and may be refused.
After any history of edits the byte at an address is told by the history alone: it
is what the last write to the address put there, if that came after the last image,
and otherwise what stands in that image.

* `LastImage` and `Held` say this of a history, without speaking of a ROM;
* `read_leave`: what one edit does to the byte at an address;
* `read_after_of_untouched`: edits that do not touch an address keep its byte;
* `read_after_iff`: what is read after a history.

`Faithful` says that all ways to read the store read the same bytes, and which
addresses and images are refused.  `faithful_store` is the main statement; it also
says that no other command of a machine touches its ROM.
-/
import TD4.Cpu.Command
import TD4.Proofs.Cpu.Steps

namespace TD4

namespace Rom

variable {rom : Rom} {first image : List UInt8} {history since : List Edit} {edit : Edit}
  {addr : Nat} {byte : UInt8} {fault : Fault}

/-! ### Images -/

/-- An image that fits stands in the ROM with zeros behind it. -/
theorem bytes_ofImage_eq {image : List UInt8} (h : image.length ≤ size) :
    (ofImage image).bytes = image ++ List.replicate (size - image.length) 0 := by
  have h16 : image.length ≤ 16 := h
  refine List.ext_getElem? fun i => ?_
  by_cases hi : i < 16
  · rw [bytes_ofImage image i hi]
    -- inside the image, or in the zeros behind it
    by_cases hin : i < image.length
    · simp [hin, List.getElem?_append_left hin]
    · have hrest : i - image.length < 16 - image.length := by omega
      simp [List.getElem?_append_right (Nat.le_of_not_lt hin), size, hrest,
        Nat.le_of_not_lt hin]
  · rw [List.getElem?_eq_none (by simp; omega), List.getElem?_eq_none]
    simp only [List.length_append, List.length_replicate, size]
    omega

theorem ofImage_bytes (rom : Rom) : ofImage rom.bytes = rom := by
  refine ext_bytes ?_
  rw [bytes_ofImage_eq (by simp [size])]
  simp [size]

/-- The ways to make a ROM, each with the image that it is made from. -/
inductive Constructed : Rom → List UInt8 → Prop
  | empty : Constructed .empty []
  | ofImage (image : List UInt8) : Constructed (.ofImage image) image
  | ofImageStrict {image : List UInt8} {rom : Rom} (h : ofImageStrict image = .ok rom) :
      Constructed rom image
  | ofCells (cells : Vector UInt8 16) : Constructed ⟨cells⟩ cells.toList

theorem ofImageStrict_eq_ok_iff :
    ofImageStrict image = .ok rom ↔ image.length ≤ 16 ∧ rom = ofImage image := by
  rw [Rom.ofImageStrict]
  split
  case isTrue hfits => exact ⟨fun h => ⟨hfits, (Except.ok.inj h).symm⟩, fun h => by rw [h.2]⟩
  case isFalse hlong => exact ⟨nofun, fun h => absurd h.1 hlong⟩

theorem ofImageStrict_eq_error_iff :
    ofImageStrict image = .error fault ↔ fault = .romOverflow ∧ 16 < image.length := by
  rw [Rom.ofImageStrict]
  split
  case isTrue hfits => exact ⟨nofun, fun h => absurd hfits (Nat.not_le.mpr h.2)⟩
  case isFalse hlong =>
    exact ⟨fun h => ⟨(Except.error.inj h).symm, Nat.not_le.mp hlong⟩, fun h => by rw [h.1]⟩

theorem ofImage_nil : ofImage [] = empty :=
  ext_bytes (bytes_ofImage_eq (Nat.zero_le _))

/-- However it is made, a ROM is that of its image. -/
theorem Constructed.eq_ofImage (h : Constructed rom image) : rom = Rom.ofImage image := by
  cases h with
  | empty => exact ofImage_nil.symm
  | ofImage => rfl
  | ofImageStrict hload => exact (ofImageStrict_eq_ok_iff.mp hload).2
  | ofCells cells => exact (ofImage_bytes ⟨cells⟩).symm

/-! ### Reading -/

theorem read_eq_ok_iff : rom.read addr = .ok byte ↔ rom.bytes[addr]? = some byte := by
  rw [read_eq]
  rcases rom.bytes[addr]? with _ | held
  · exact ⟨nofun, nofun⟩
  · rw [Except.ok.injEq, Option.some_inj]

theorem read_eq_error_iff : rom.read addr = .error fault ↔ fault = .romOverflow ∧ 16 ≤ addr := by
  rw [read_eq, ← length_bytes rom, ← List.getElem?_eq_none_iff]
  rcases rom.bytes[addr]? with _ | held
  · exact ⟨fun h => ⟨(Except.error.inj h).symm, rfl⟩, fun h => by rw [h.1]⟩
  · exact ⟨nofun, nofun⟩

theorem lt_of_read (h : rom.read addr = .ok byte) : addr < 16 := by
  have hlt := (List.getElem?_eq_some_iff.mp (read_eq_ok_iff.mp h)).1
  rwa [length_bytes] at hlt

theorem read_ofImage (h : addr < 16) : (ofImage image).read addr = .ok (image.getD addr 0) :=
  read_eq_ok_iff.mpr (bytes_ofImage image addr h)

theorem write_eq_error_iff :
    rom.write addr byte = .error fault ↔ fault = .romOverflow ∧ 16 ≤ addr := by
  rw [write]
  split
  case isTrue hlt => exact ⟨nofun, fun h => absurd hlt (Nat.not_lt.mpr h.2)⟩
  case isFalse hge =>
    exact ⟨fun h => ⟨(Except.error.inj h).symm, Nat.not_lt.mp hge⟩, fun h => by rw [h.1]⟩

/-- The entries of a ROM are its addresses in order, each with the byte that is read there. -/
theorem getElem?_entries_iff {i : Nat} {entry : Nat × UInt8} :
    rom.entries[i]? = some entry ↔ entry.1 = i ∧ rom.read i = .ok entry.2 := by
  rw [entries, List.getElem?_zip_eq_some, read_eq_ok_iff]
  constructor
  · rintro ⟨haddr, hbyte⟩
    have hi := (List.getElem?_eq_some_iff.mp haddr).2
    rw [List.getElem_range] at hi
    exact ⟨hi.symm, hbyte⟩
  · rintro ⟨rfl, hbyte⟩
    exact ⟨List.getElem?_range (lt_of_read (read_eq_ok_iff.mpr hbyte)), hbyte⟩

/-! ### One edit -/

/-- The image that an edit leaves in the whole ROM, if it is not refused. -/
def Edit.image? : Edit → Option (List UInt8)
  | .write _ _ => none
  | .load image => if image.length ≤ 16 then some image else none
  | .clear => some []

/-- The ROM that an edit leaves.  An edit that is refused leaves it as it was. -/
def Edit.leave (edit : Edit) (rom : Rom) : Rom :=
  match edit.apply rom with
  | .ok next => next
  | .error _ => rom

theorem Edit.leave_of_image (h : edit.image? = some image) : edit.leave rom = ofImage image := by
  cases edit with
  | write => cases h
  | load loaded =>
    rw [image?] at h
    split at h
    case isTrue hfits =>
      cases h
      rw [leave, apply, ofImageStrict_eq_ok_iff.mpr ⟨hfits, rfl⟩]
    case isFalse => cases h
  | clear =>
    cases h
    exact ofImage_nil.symm

/-- A write leaves its byte at its address. -/
theorem read_leave_write (h : addr < 16) (byte : UInt8) :
    ((Edit.write addr byte).leave rom).read addr = .ok byte := by
  rcases hwrite : rom.write addr byte with fault | next
  · exact absurd h (Nat.not_lt.mpr (write_eq_error_iff.mp hwrite).2)
  · rw [Edit.leave, Edit.apply, hwrite, read_eq_ok_iff, bytes_write hwrite]
    exact List.getElem?_set_self (h.trans_eq (length_bytes rom).symm)

/-- An edit that neither leaves an image nor writes to an address keeps its byte. -/
theorem read_leave (himage : edit.image? = none) (hwrite : ∀ byte, edit ≠ .write addr byte) :
    (edit.leave rom).read addr = rom.read addr := by
  cases edit with
  | write other byte =>
    have hne : other ≠ addr := by
      rintro rfl
      exact hwrite byte rfl
    rcases happly : rom.write other byte with fault | next
    · rw [Edit.leave, Edit.apply, happly]
    · rw [Edit.leave, Edit.apply, happly, read_eq, read_eq, bytes_write happly,
        List.getElem?_set_ne hne]
  | load image =>
    rw [Edit.image?] at himage
    split at himage
    case isTrue => cases himage
    case isFalse hlong =>
      rw [Edit.leave, Edit.apply, ofImageStrict_eq_error_iff.mpr ⟨rfl, Nat.not_le.mp hlong⟩]
  | clear => cases himage

/-! ### Histories -/

/-- The ROM after a history of edits, whether they succeed or are refused. -/
def after (rom : Rom) (history : List Edit) : Rom := history.foldl (fun rom edit => edit.leave rom) rom

theorem after_append (rom : Rom) (history since : List Edit) :
    rom.after (history ++ since) = (rom.after history).after since :=
  List.foldl_append

/-- The last image that a history of edits left in a ROM, and the edits since.  Before
any other, there is the image that the ROM was made from. -/
inductive LastImage (first : List UInt8) (history : List Edit) : List UInt8 → List Edit → Prop
  | first (h : ∀ edit ∈ history, edit.image? = none) : LastImage first history first history
  | later {before since : List Edit} {edit : Edit} {image : List UInt8}
      (hhistory : history = before ++ edit :: since) (himage : edit.image? = some image)
      (h : ∀ edit ∈ since, edit.image? = none) : LastImage first history image since

/-- The byte at an address, told by the last image and the edits since: the one that was
last written there, or that of the image, which is zero beyond its end. -/
inductive Held (image : List UInt8) (since : List Edit) (addr : Nat) : UInt8 → Prop
  | written {before behind : List Edit} {byte : UInt8}
      (hsince : since = before ++ .write addr byte :: behind)
      (h : ∀ other, .write addr other ∉ behind) : Held image since addr byte
  | image (h : ∀ byte, .write addr byte ∉ since) : Held image since addr (image.getD addr 0)

/-- Edits that leave no image and do not write to an address keep its byte. -/
theorem read_after_of_untouched (himage : ∀ edit ∈ since, edit.image? = none)
    (hwrite : ∀ byte, .write addr byte ∉ since) : (rom.after since).read addr = rom.read addr := by
  induction since generalizing rom with
  | nil => rfl
  | cons edit rest ih =>
    obtain ⟨hfirst, hrest⟩ := List.forall_mem_cons.mp himage
    have hkept : (edit.leave rom).read addr = rom.read addr := by
      refine read_leave hfirst ?_
      rintro byte rfl
      exact hwrite byte List.mem_cons_self
    have hnone : ∀ byte, .write addr byte ∉ rest := fun byte hmem =>
      hwrite byte (List.mem_cons_of_mem _ hmem)
    exact (ih hrest hnone).trans hkept

/-- The last image puts everything before it out of mind. -/
theorem LastImage.after_eq (h : LastImage first history image since) :
    (ofImage first).after history = (ofImage image).after since := by
  cases h with
  | first => rfl
  | later hhistory himage =>
    rw [hhistory, after_append]
    exact congrArg (fun rom => rom.after since) (Edit.leave_of_image himage)

theorem LastImage.no_image (h : LastImage first history image since) :
    ∀ edit ∈ since, edit.image? = none := by
  cases h with
  | first h => exact h
  | later _ _ h => exact h

theorem read_after_of_held (haddr : addr < 16) (himage : ∀ edit ∈ since, edit.image? = none)
    (h : Held image since addr byte) : ((ofImage image).after since).read addr = .ok byte := by
  cases h with
  | @written before behind _ hsince hbehind =>
    subst hsince
    have hrest : ∀ edit ∈ behind, edit.image? = none := fun edit hmem =>
      himage edit (List.mem_append_right _ (List.mem_cons_of_mem _ hmem))
    rw [after_append]
    exact (read_after_of_untouched hrest hbehind).trans (read_leave_write haddr byte)
  | image hnone => rw [read_after_of_untouched himage hnone, read_ofImage haddr]

/-- Of the members of a list with a property one is the last, if there are any. -/
theorem none_or_exists_last {α : Type} (p : α → Prop) (xs : List α) :
    (∀ x ∈ xs, ¬ p x) ∨ ∃ front x back, xs = front ++ x :: back ∧ p x ∧ ∀ y ∈ back, ¬ p y := by
  induction xs with
  | nil => exact .inl nofun
  | cons x rest ih =>
    rcases ih with hnone | ⟨front, y, back, rfl, hy, hback⟩
    · by_cases hx : p x
      · exact .inr ⟨[], x, rest, rfl, hx, hnone⟩
      · exact .inl (List.forall_mem_cons.mpr ⟨hx, hnone⟩)
    · exact .inr ⟨x :: front, y, back, rfl, hy, hback⟩

theorem exists_lastImage (first : List UInt8) (history : List Edit) :
    ∃ image since, LastImage first history image since := by
  have hnone : ∀ edit : Edit, ¬ edit.image? ≠ none → edit.image? = none := fun _ => not_not.mp
  rcases none_or_exists_last (fun edit : Edit => edit.image? ≠ none) history with
    h | ⟨before, edit, since, hhistory, himage, h⟩
  · exact ⟨first, history, .first fun edit hmem => hnone edit (h edit hmem)⟩
  · obtain ⟨image, himage⟩ := Option.ne_none_iff_exists'.mp himage
    exact ⟨image, since, .later hhistory himage fun edit hmem => hnone edit (h edit hmem)⟩

theorem exists_held (image : List UInt8) (since : List Edit) (addr : Nat) :
    ∃ byte, Held image since addr byte := by
  rcases none_or_exists_last (fun edit => ∃ byte, edit = .write addr byte) since with
    h | ⟨before, edit, behind, hsince, ⟨byte, rfl⟩, h⟩
  · exact ⟨_, .image fun byte hmem => h _ hmem ⟨byte, rfl⟩⟩
  · exact ⟨byte, .written hsince fun other hmem => h _ hmem ⟨other, rfl⟩⟩

/-- What is read after a history of edits. -/
theorem read_after_iff : ((ofImage first).after history).read addr = .ok byte ↔
    addr < 16 ∧ ∃ image since, LastImage first history image since ∧ Held image since addr byte := by
  constructor
  · intro h
    have haddr := lt_of_read h
    obtain ⟨image, since, hlast⟩ := exists_lastImage first history
    obtain ⟨other, hheld⟩ := exists_held image since addr
    rw [hlast.after_eq, read_after_of_held haddr hlast.no_image hheld] at h
    cases h
    exact ⟨haddr, image, since, hlast, hheld⟩
  · rintro ⟨haddr, image, since, hlast, hheld⟩
    rw [hlast.after_eq]
    exact read_after_of_held haddr hlast.no_image hheld

end Rom

/-! ### The ROM of a machine -/

namespace Cpu

/-- The edits of the ROM among the commands of a history. -/
def romEdits (commands : List Command) : List Rom.Edit :=
  commands.filterMap fun command =>
    match command with
    | .rom edit => some edit
    | _ => none

theorem rom_execute (cpu : Cpu) (opcode operand : UInt8) :
    (cpu.execute opcode operand).2.rom = cpu.rom := by
  have hexecuted := executed cpu opcode operand
  generalize cpu.execute opcode operand = outcome at hexecuted
  cases hexecuted <;> rfl

/-- An edit that is refused leaves the whole machine alone. -/
theorem apply_of_refused {cpu : Cpu} {edit : Rom.Edit} {fault : Fault}
    (h : edit.apply cpu.rom = .error fault) :
    (Command.rom edit).apply cpu = (.error fault, cpu) := by
  rw [Command.apply, h]

theorem rom_apply (cpu : Cpu) (command : Command) :
    (command.apply cpu).2.rom = cpu.rom.after (romEdits [command]) := by
  cases command with
  | step => exact rom_step cpu
  | execute opcode operand => exact rom_execute cpu opcode operand
  | run limit =>
    show (cpu.runLimited limit).2.rom = cpu.rom
    rw [snd_runLimited, rom_steps]
  | reset => rfl
  | registers edit => rfl
  | rom edit =>
    show _ = edit.leave cpu.rom
    rw [Command.apply, Rom.Edit.leave]
    rcases edit.apply cpu.rom with fault | next <;> rfl

/-- Nothing but its edits changes the ROM of a machine. -/
theorem rom_after (cpu : Cpu) (commands : List Command) :
    (cpu.after commands).rom = cpu.rom.after (romEdits commands) := by
  induction commands generalizing cpu with
  | nil => rfl
  | cons command rest ih =>
    have hedits : romEdits (command :: rest) = romEdits [command] ++ romEdits rest :=
      List.filterMap_append (l := [command])
    rw [hedits, Rom.after_append, ← rom_apply]
    exact ih _

end Cpu

/-! ### The store as a whole -/

namespace Rom

/-- All ways to read a ROM read the same 16 bytes, and only addresses beyond them and
images with more bytes are refused. -/
structure Faithful (rom : Rom) : Prop where
  fetch : ∀ addr : UInt8, rom.read (addr.toNat % 16) = .ok (rom.fetch addr)
  bytes : rom.bytes.length = 16 ∧
    ∀ addr byte, rom.bytes[addr]? = some byte ↔ rom.read addr = .ok byte
  entries : ∀ i entry, rom.entries[i]? = some entry ↔ entry.1 = i ∧ rom.read i = .ok entry.2
  read_refused : ∀ addr fault, rom.read addr = .error fault ↔ fault = .romOverflow ∧ 16 ≤ addr
  write_refused : ∀ addr byte fault,
    (Edit.write addr byte).apply rom = .error fault ↔ fault = .romOverflow ∧ 16 ≤ addr
  load_refused : ∀ image fault,
    (Edit.load image).apply rom = .error fault ↔ fault = .romOverflow ∧ 16 < image.length
  clear_taken : ∃ next, Edit.clear.apply rom = .ok next
  /-- A machine that is refused an edit of this ROM stays as it is. -/
  kept : ∀ (cpu : Cpu) edit fault, cpu.rom = rom → edit.apply rom = .error fault →
    (Cpu.Command.rom edit).apply cpu = (.error fault, cpu)

theorem faithful (rom : Rom) : Faithful rom where
  fetch addr := read_eq_ok_iff.mpr (fetch_eq rom addr)
  bytes := ⟨length_bytes rom, fun _ _ => read_eq_ok_iff.symm⟩
  entries _ _ := getElem?_entries_iff
  read_refused _ _ := read_eq_error_iff
  write_refused _ _ _ := write_eq_error_iff
  load_refused _ _ := ofImageStrict_eq_error_iff
  clear_taken := ⟨_, rfl⟩
  kept cpu edit fault hrom h := by
    subst hrom
    exact Cpu.apply_of_refused h

/-- **The ROM is a faithful store of 16 bytes.**  However it was made and whatever edits
followed, at each of its addresses is read what was last written there since the last
image that was loaded, or what stands in that image; a clear counts as an empty image.
In a machine this holds whatever else the machine was made to do in between. -/
theorem faithful_store {start : Rom} (hstart : Constructed start first) (history : List Edit) :
    Faithful (start.after history) ∧
      (∀ addr byte, (start.after history).read addr = .ok byte ↔ addr < 16 ∧
        ∃ image since, LastImage first history image since ∧ Held image since addr byte) ∧
      ∀ (cpu : Cpu) (commands : List Cpu.Command), cpu.rom = start →
        Cpu.romEdits commands = history → (cpu.after commands).rom = start.after history := by
  refine ⟨faithful _, fun addr byte => ?_, fun cpu commands hrom hedits => ?_⟩
  · rw [hstart.eq_ofImage]
    exact read_after_iff
  · rw [Cpu.rom_after, hrom, hedits]

/-- A machine that writes, is refused two edits, loads and writes again, between steps. -/
theorem faithful_store_reload :
    Constructed (.ofImage [0x31, 0xF1]) [0x31, 0xF1] ∧
      ((Cpu.ofImage [0x31, 0xF1]).after [.rom (.write 3 0x77), .step,
        .rom (.load [0x40, 0x90, 0x11]), .rom (.write (2 ^ 64 - 1) 1), .run 2,
        .rom (.write 1 0xB5), .rom (.load (List.replicate 17 0))]).rom.read 1 = .ok 0xB5 ∧
      ((Cpu.ofImage [0x31, 0xF1]).after [.rom (.write 3 0x77), .step,
        .rom (.load [0x40, 0x90, 0x11]), .rom (.write (2 ^ 64 - 1) 1), .run 2,
        .rom (.write 1 0xB5), .rom (.load (List.replicate 17 0))]).rom.read 3 = .ok 0 := by
  have hstart : Constructed (.ofImage [0x31, 0xF1]) [0x31, 0xF1] := .ofImage _
  have hstore := faithful_store hstart [.write 3 0x77, .load [0x40, 0x90, 0x11],
    .write (2 ^ 64 - 1) 1, .write 1 0xB5, .load (List.replicate 17 0)]
  have hlast : LastImage [0x31, 0xF1]
      ([.write 3 0x77] ++ .load [0x40, 0x90, 0x11] :: [.write (2 ^ 64 - 1) 1, .write 1 0xB5,
        .load (List.replicate 17 0)])
      [0x40, 0x90, 0x11] [.write (2 ^ 64 - 1) 1, .write 1 0xB5, .load (List.replicate 17 0)] :=
    .later rfl rfl (by decide)
  have hheld : Held [0x40, 0x90, 0x11]
      ([.write (2 ^ 64 - 1) 1] ++ .write 1 0xB5 :: [.load (List.replicate 17 0)]) 1 0xB5 :=
    .written rfl (by simp)
  rw [hstore.2.2 (Cpu.ofImage [0x31, 0xF1]) _ rfl rfl]
  exact ⟨hstart, (hstore.2.1 1 0xB5).mpr ⟨by decide, _, _, hlast, hheld⟩,
    (hstore.2.1 3 0).mpr ⟨by decide, _, _, hlast, .image (by simp)⟩⟩

end Rom
end TD4
