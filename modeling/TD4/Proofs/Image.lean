/-
Loading what is in a file.

There are three ways to load a file, and one to write it, and they agree on what an
image is: the bytes of a ROM from its first cell on, with zeros beyond them.

* `Rom.holds_iff`: the one ROM that holds an image;
* `FileView.textOfBytes?_eq_some_iff`: a text is read from its UTF-8 form and from
  nothing else;
* `loaded_of_file`: what each way makes of a file with any bytes;
* `saved_of_save`: what is there after a ROM was saved, and `exists_save_iff` when it
  can be saved.

`loaders_agree` says it of all files and of all ROMs.
-/
import TD4.Image
import TD4.Proofs.FileTree.Write
import TD4.Proofs.Listing.RoundTrip
import TD4.Proofs.Path.Extension

namespace TD4

/-! ### Images -/

namespace Rom

variable {rom : Rom} {image : List UInt8}

/-- A ROM holds an image from its first cell on, and zero beyond the end of the image. -/
def Holds (rom : Rom) (image : List UInt8) : Prop := ∀ i < 16, rom.bytes[i]? = some (image.getD i 0)

/-- An image is held by one ROM. -/
theorem holds_iff : rom.Holds image ↔ rom = ofImage image := by
  constructor
  · intro h
    refine ext_bytes (List.ext_getElem? fun i => ?_)
    by_cases hi : i < 16
    · rw [h i hi, bytes_ofImage image i hi]
    · rw [List.getElem?_eq_none (by simpa using hi), List.getElem?_eq_none (by simpa using hi)]
  · rintro rfl i hi
    exact bytes_ofImage image i hi

end Rom

/-! ### Texts -/

namespace FileView

/-- A text is read from its UTF-8 form and from nothing else. -/
theorem textOfBytes?_eq_some_iff {bytes : List UInt8} {text : List Char} :
    textOfBytes? bytes = some text ↔ bytes = text.flatMap String.utf8EncodeChar := by
  have hbytes : ByteArray.mk bytes.toArray = bytes.toByteArray :=
    ByteArray.ext List.data_toByteArray.symm
  have hform : bytes = text.flatMap String.utf8EncodeChar ↔ bytes.toByteArray = text.utf8Encode :=
    List.toByteArray_inj.symm
  rw [textOfBytes?, hbytes, hform]
  constructor
  · intro h
    obtain ⟨chars, hchars, rfl⟩ := Option.map_eq_some_iff.mp h
    have hsome : bytes.toByteArray.utf8Decode?.isSome = true := by rw [hchars]; rfl
    have hback := ByteArray.utf8Encode_get_utf8Decode? (h := hsome)
    rw [← hback]
    simp only [hchars, Option.get_some]
  · intro h
    rw [h, List.utf8Decode?_utf8Encode]
    rfl

theorem readText_eq_ok_iff {files : FileView} {path text : List Char} :
    files.readText path = .ok text ↔ files path = .ok (text.flatMap String.utf8EncodeChar) := by
  rw [readText]
  rcases files path with e | bytes
  · exact iff_of_false nofun nofun
  · simp only [Except.ok.injEq, ← textOfBytes?_eq_some_iff]
    rcases textOfBytes? bytes with _ | found
    · exact iff_of_false nofun nofun
    · simp

end FileView

namespace Image

variable {files : FileView} {path : List Char} {bytes : List UInt8} {rom : Rom}
  {tree next : FileTree}

/-! ### Loading -/

/-- A path has the extension of assembly. -/
def NamedSource (path : List Char) : Prop :=
  Path.HasExtension path "s".toList ∨ Path.HasExtension path "asm".toList

theorem isSource_iff : isSource path = true ↔ NamedSource path := by
  rw [isSource, Bool.or_eq_true, beq_iff_eq, beq_iff_eq, Path.extension?_eq_some_iff,
    Path.extension?_eq_some_iff]
  rfl

theorem loadProgram_of_not_source (h : ¬ NamedSource path) :
    loadProgram files path = load files path := by
  rw [loadProgram, if_neg (mt isSource_iff.mp h)]

/-- A source in UTF-8 is assembled. -/
theorem loadProgram_of_text {text : List Char} (hsource : NamedSource path)
    (hfile : files path = .ok bytes) (htext : bytes = text.flatMap String.utf8EncodeChar) :
    loadProgram files path = match Assembly.assemble text with
      | .ok image => .ok (Rom.ofImage image)
      | .error e => .error (.program e) := by
  have hread : files.readText path = .ok text :=
    FileView.readText_eq_ok_iff.mpr (by rw [hfile, htext])
  rw [loadProgram, if_pos (isSource_iff.mpr hsource), loadSource, hread]
  simp only [Assembly.assembleRom]
  rcases Assembly.assemble text with e | image <;> rfl

theorem loadProgram_of_no_text (hsource : NamedSource path) (hfile : files path = .ok bytes)
    (htext : ∀ text : List Char, bytes ≠ text.flatMap String.utf8EncodeChar) :
    loadProgram files path = .error (.file .notText) := by
  have hnone : FileView.textOfBytes? bytes = none :=
    Option.eq_none_iff_forall_ne_some.mpr fun text h =>
      htext text (FileView.textOfBytes?_eq_some_iff.mp h)
  have hread : files.readText path = .error .notText := by
    rw [FileView.readText, hfile]
    simp only [hnone]
  rw [loadProgram, if_pos (isSource_iff.mpr hsource), loadSource, hread]

/-- What is made of a file with the name of a source. -/
structure Assembled (files : FileView) (path : List Char) (bytes : List UInt8) : Prop where
  /-- Its ROM holds the bytes of the program, all of them. -/
  ok : ∀ rom, loadProgram files path = .ok rom ↔ ∃ text image,
    bytes = text.flatMap String.utf8EncodeChar ∧ Assembly.assemble text = .ok image ∧
      image.length ≤ 16 ∧ rom.Holds image
  error : ∀ e, loadProgram files path = .error (.program e) ↔ ∃ text,
    bytes = text.flatMap String.utf8EncodeChar ∧ Assembly.assemble text = .error e
  notText : loadProgram files path = .error (.file .notText) ↔
    ∀ text : List Char, bytes ≠ text.flatMap String.utf8EncodeChar

/-- What is made of a file with any bytes. -/
structure Loaded (files : FileView) (path : List Char) (bytes : List UInt8) : Prop where
  image : ∃ rom : Rom, rom.Holds bytes ∧ load files path = .ok rom ∧
    loadStrict files path
      = (if bytes.length ≤ 16 then .ok rom else .error (.rom .romOverflow)) ∧
    (¬ NamedSource path → loadProgram files path = .ok rom)
  source : NamedSource path → Assembled files path bytes

theorem assembled_of_source (hsource : NamedSource path) (hfile : files path = .ok bytes) :
    Assembled files path bytes := by
  by_cases htext : ∃ text : List Char, bytes = text.flatMap String.utf8EncodeChar
  · obtain ⟨text, htext⟩ := htext
    -- no other text has these bytes
    have honly : ∀ other : List Char, bytes = other.flatMap String.utf8EncodeChar ↔ other = text := by
      intro other
      rw [← FileView.textOfBytes?_eq_some_iff, FileView.textOfBytes?_eq_some_iff.mpr htext,
        Option.some.injEq, eq_comm]
    have hload := loadProgram_of_text hsource hfile htext
    rcases hassemble : Assembly.assemble text with e | image
    · rw [hassemble] at hload
      constructor <;> simp [hload, honly, hassemble]
    · rw [hassemble] at hload
      have hlength : image.length ≤ 16 := Assembly.length_le_of_assemble hassemble
      constructor <;> simp [hload, honly, hassemble, hlength, Rom.holds_iff, eq_comm]
  · simp only [not_exists] at htext
    have hload := loadProgram_of_no_text hsource hfile htext
    constructor <;> simp [hload, htext]

theorem loadStrict_of_file (hfile : files path = .ok bytes) : loadStrict files path
    = if bytes.length ≤ 16 then .ok (Rom.ofImage bytes) else .error (.rom .romOverflow) := by
  rw [loadStrict, hfile]
  show (if bytes.length ≤ 16 then .ok (Rom.ofImage bytes) else .error Fault.romOverflow : Except
    Fault Rom).mapError Error.rom = _
  split <;> rfl

theorem loaded_of_file (hfile : files path = .ok bytes) : Loaded files path bytes := by
  have hload : load files path = .ok (Rom.ofImage bytes) := by rw [load, hfile]
  refine ⟨⟨Rom.ofImage bytes, Rom.holds_iff.mpr rfl, hload, loadStrict_of_file hfile,
    fun hname => ?_⟩, fun hsource => assembled_of_source hsource hfile⟩
  rw [loadProgram_of_not_source hname, hload]

/-! ### Saving -/

/-- What is there after a ROM was saved. -/
structure Saved (tree : FileTree) (path : List Char) (rom : Rom) (next : FileTree) : Prop where
  length : rom.bytes.length = 16
  /-- The path leads to the file that was written, and all other places are as before. -/
  place : ∃ place, next.locate path = .ok place ∧ next.node? place = some (.file rom.bytes) ∧
    ∀ other, other ≠ place → next.node? other = tree.node? other
  /-- What was read at a path to another place is read there still. -/
  others : ∀ other held, tree.read other = .ok held → tree.locate path ≠ tree.locate other →
    next.read other = .ok held
  load : load next.read path = .ok rom
  strict : loadStrict next.read path = .ok rom
  program : ¬ NamedSource path → loadProgram next.read path = .ok rom

theorem exists_save_iff : (∃ next, save tree path rom = .ok next) ↔
    FileTree.endsInSlash path = false ∧
      ∃ place, tree.locate path = .ok place ∧ tree.node? place ≠ some .directory := by
  simp only [save, FileTree.write_eq_ok_iff]
  constructor
  · rintro ⟨_, hslash, place, hplace, hnode, -⟩
    exact ⟨hslash, place, hplace, hnode⟩
  · rintro ⟨hslash, place, hplace, hnode⟩
    exact ⟨_, hslash, place, hplace, hnode, rfl⟩

theorem saved_of_save (h : save tree path rom = .ok next) : Saved tree path rom next := by
  -- what was written is a file like any other
  have hload := loaded_of_file (FileTree.read_of_write h)
  obtain ⟨held, hheld, himage, hstrict, hprogram⟩ := hload.image
  obtain rfl : held = rom := by rw [Rom.holds_iff.mp hheld, Rom.ofImage_bytes]
  obtain ⟨-, place, hplace, hnode, rfl⟩ := FileTree.write_eq_ok_iff.mp h
  have hroot : place ≠ [] := by
    rintro rfl
    exact hnode rfl
  refine ⟨held.length_bytes, ⟨place, FileTree.locate_set hnode hplace,
    FileTree.node_set_self tree hroot _, fun other hother => FileTree.node_set_other tree hother _⟩,
    fun other held hother hne => FileTree.read_of_write_other h hother hne, himage, ?_, hprogram⟩
  rw [hstrict, if_pos (Nat.le_of_eq held.length_bytes)]

/-- **The ways to load a file agree.**  A ROM that is saved, which succeeds wherever a
file can be, is loaded again in every way and nothing else has changed.  Of a file with
any bytes all ways make the ROM that holds them, unless the strict one finds it too
long or it has the name of a source. -/
theorem loaders_agree :
    (∀ tree path rom, ((∃ next, save tree path rom = .ok next) ↔
      FileTree.endsInSlash path = false ∧
        ∃ place, tree.locate path = .ok place ∧ tree.node? place ≠ some .directory) ∧
      ∀ next, save tree path rom = .ok next → Saved tree path rom next) ∧
    ∀ (files : FileView) path bytes, files path = .ok bytes → Loaded files path bytes :=
  ⟨fun _ _ _ => ⟨exists_save_iff, fun _ h => saved_of_save h⟩, fun _ _ _ h => loaded_of_file h⟩

/-- A capital letter makes a name that of an image, and a dot in front of a name does not
count where another follows. -/
theorem loaders_agree_names :
    ∃ next, save ⟨[], []⟩ "boot.S".toList (Rom.ofImage [0x40, 0x90]) = .ok next ∧
      ¬ NamedSource "boot.S".toList ∧
      loadProgram next.read "boot.S".toList = .ok (Rom.ofImage [0x40, 0x90]) ∧
      NamedSource "a/.b.asm/.".toList ∧
      loadProgram (fun _ => .ok [0x64, 0x62, 0x20, 0x37]) "a/.b.asm/.".toList
        = .ok (Rom.ofImage [0x07]) := by
  have himage : ¬ NamedSource "boot.S".toList := fun h => absurd (isSource_iff.mpr h) (by decide)
  have hsource : NamedSource "a/.b.asm/.".toList := isSource_iff.mp (by decide)
  have hsave := loaders_agree.1 ⟨[], []⟩ "boot.S".toList (Rom.ofImage [0x40, 0x90])
  obtain ⟨next, hnext⟩ := hsave.1.mpr ⟨by decide, ["boot.S".toList], by decide, by decide⟩
  have hload := loaders_agree.2 (fun _ => .ok [0x64, 0x62, 0x20, 0x37]) "a/.b.asm/.".toList _ rfl
  exact ⟨next, hnext, himage, (hsave.2 next hnext).program himage, hsource,
    ((hload.source hsource).ok _).mpr ⟨"db 7".toList, [0x07], by decide, by decide, by decide,
      Rom.holds_iff.mpr rfl⟩⟩

end Image
end TD4
