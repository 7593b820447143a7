/-
What is left of a command in the files.

Only assembling a source changes files, and it changes one or none.

* `settled_execute`: assembling ends with the image saved, or with an obstacle and all
  files as they were (`Obstacle`);
* `imagePath_of_writable`: the image has the path that was asked for, or that of the
  source with its own extension, as far as something can be written there;
* `execute_of_not_assemble`: no other command saves anything.

`one_file_or_none` is about all trees of files and all command lines.
-/
import TD4.CommandLine.Execute
import TD4.Proofs.Image
import TD4.Proofs.Path.NewExtension

namespace TD4
namespace CommandLine

variable {tree next : FileTree} {source target : List Char} {output : Option (List Char)}
  {words : List (List Char)}

/-! ### How assembling goes -/

/-- What keeps a source from being assembled to a file. -/
inductive Obstacle (tree : FileTree) (source target : List Char) : Prop
  | unread (e : FileError) (h : tree.read source = .error e)
  | notText (bytes : List UInt8) (hread : tree.read source = .ok bytes)
      (h : ∀ text : List Char, bytes ≠ text.flatMap String.utf8EncodeChar)
  | faulty (text : List Char) (e : Assembly.Error)
      (hread : tree.read source = .ok (text.flatMap String.utf8EncodeChar))
      (h : Assembly.assemble text = .error e)
  | unwritable (h : ¬ tree.Writable target)

/-- The ways in which assembling can go, with the exit code and the files after it. -/
inductive Settled (tree : FileTree) (source target : List Char) : Nat → FileTree → Prop
  | saved {text : List Char} {program : List UInt8} {next : FileTree}
      (hread : tree.read source = .ok (text.flatMap String.utf8EncodeChar))
      (hassemble : Assembly.assemble text = .ok program)
      (hsave : Image.save tree target (.ofImage program) = .ok next) :
      Settled tree source target 0 next
  | failed (h : Obstacle tree source target) : Settled tree source target 1 tree

theorem Obstacle.of_readText {e : FileError} (h : FileView.readText tree.read source = .error e) :
    Obstacle tree source target := by
  rcases hfile : tree.read source with e | bytes
  · exact .unread e hfile
  · refine .notText bytes hfile fun text htext => ?_
    rw [FileView.readText_eq_ok_iff.mpr (by rw [hfile, htext])] at h
    cases h

theorem settled_execute (tree : FileTree)
    (hwords : Invocation.parse? words = some (.assemble source output)) :
    Settled tree source (outputPath source output) (execute tree words).1.exitCode
      (execute tree words).2 := by
  rw [execute, hwords]
  simp only [respond, assembleFile]
  rcases htext : FileView.readText tree.read source with e | text
  · exact .failed (.of_readText htext)
  · have hread := FileView.readText_eq_ok_iff.mp htext
    simp only [Assembly.assembleRom]
    rcases hassemble : Assembly.assemble text with e | program
    · exact .failed (.faulty text e hread hassemble)
    · simp only [Except.map, Response.settle]
      rcases hsave : Image.save tree (outputPath source output) (.ofImage program) with e | next
      · refine .failed (.unwritable fun hwritable => ?_)
        obtain ⟨next, hnext⟩ := hwritable.exists_write (Rom.ofImage program).bytes
        rw [Image.save, hnext] at hsave
        cases hsave
      · exact .saved hread hassemble hsave

/-- With an obstacle in the way nothing is saved. -/
theorem Obstacle.not_saved {text : List Char} {program : List UInt8}
    (h : Obstacle tree source target)
    (hread : tree.read source = .ok (text.flatMap String.utf8EncodeChar))
    (hassemble : Assembly.assemble text = .ok program) :
    Image.save tree target (.ofImage program) ≠ .ok next := by
  intro hsave
  cases h with
  | unread e h =>
    rw [hread] at h
    cases h
  | notText bytes hbytes h =>
    rw [hread] at hbytes
    cases hbytes
    exact h text rfl
  | faulty other e hother h =>
    have htext := FileView.readText_eq_ok_iff.mpr hread
    rw [FileView.readText_eq_ok_iff.mpr hother] at htext
    cases htext
    rw [hassemble] at h
    cases h
  | unwritable h => exact h ⟨_, _, hsave⟩

/-! ### Where the image goes -/

/-- The path of an image: the one asked for, or that of the source with another extension. -/
inductive ImagePath (source : List Char) : Option (List Char) → List Char → Prop
  | given (target : List Char) : ImagePath source (some target) target
  | beside {target : List Char} (h : Path.Renamed source "bin".toList target) :
      ImagePath source none target

theorem imagePath_of_writable {bytes : List UInt8} (htree : tree.Grounded)
    (hread : tree.read source = .ok bytes) (hwrite : tree.Writable (outputPath source output)) :
    ImagePath source output (outputPath source output) := by
  rcases output with _ | path
  · obtain ⟨hslash, place, hplace, hfile⟩ := FileTree.read_eq_ok_iff.mp hread
    have hnode : tree.node? place ≠ some .directory := by
      rw [hfile]
      exact nofun
    obtain ⟨⟨hne, hdot, hdots⟩, -⟩ := FileTree.lastName_of_locate htree hslash hplace hnode
    obtain ⟨front, hparts⟩ := Path.exists_parts hne hdot hdots
    rcases Path.renamed_or_dots hparts "bin".toList with hrenamed | hup
    · exact .beside hrenamed
    · -- two dots lead to a directory, which is not written
      obtain ⟨_, _, hwrite⟩ := hwrite
      obtain ⟨hslash, place, hplace, hnode, -⟩ := FileTree.write_eq_ok_iff.mp hwrite
      obtain ⟨⟨-, -, hname⟩, -⟩ := FileTree.lastName_of_locate htree hslash hplace hnode
      rw [outputPath, Option.getD_none, hup, Path.lastName_append hparts.front (by decide)] at hname
      exact absurd rfl hname
  · exact .given path

/-! ### Commands that save nothing -/

/-- A response ends by saving something. -/
def Response.Saves (response : Response) : Prop := ∃ path rom, response.ending = .save path rom

theorem not_saves_failed (lines : List String) (complaint : String) :
    ¬ (Response.failed lines complaint).Saves := by
  rintro ⟨_, _, heq⟩
  cases heq

theorem not_saves_success (lines : List String) : ¬ Response.Saves ⟨lines, .success⟩ := by
  rintro ⟨_, _, heq⟩
  cases heq

theorem not_saves_loadOr {files : FileView} {program : List Char} {shown : List String}
    {use : Rom → Response} (h : ∀ rom, ¬ (use rom).Saves) :
    ¬ (loadOr files program shown use).Saves := by
  rw [loadOr]
  split
  case h_1 => exact not_saves_failed _ _
  case h_2 rom _ => exact h rom

theorem not_saves_runResponse (program : List Char) (json : Bool) (report : RunReport) (cpu : Cpu) :
    ¬ (runResponse program json report cpu).Saves := by
  simp only [runResponse]
  split
  case h_1 => exact not_saves_success _
  case h_2 => exact not_saves_failed _ _
  case h_3 => exact not_saves_success _

theorem not_saves_respond (files : FileView) {invocation : Invocation}
    (h : ∀ source output, invocation ≠ .assemble source output) :
    ¬ (respond files invocation).Saves := by
  cases invocation with
  | banner => exact not_saves_success _
  | version => exact not_saves_success _
  | run request =>
    rw [respond, respondRun]
    split
    case h_1 => exact not_saves_failed _ _
    case h_2 =>
      refine not_saves_loadOr fun rom => ?_
      split
      case h_1 => exact not_saves_runResponse _ _ _ _
      case h_2 => exact not_saves_runResponse _ _ _ _
  | trace program input steps =>
    refine not_saves_loadOr fun rom => ?_
    simp only
    split
    case h_1 => exact not_saves_success _
    case h_2 => exact not_saves_failed _ _
    case h_3 => exact not_saves_success _
  | assemble source output => exact absurd rfl (h source output)
  | disassemble program => exact not_saves_loadOr fun rom => not_saves_success _

/-- Where nothing is to be saved, the files are left alone. -/
theorem settle_of_not_saves {response : Response} (h : ¬ response.Saves) (tree : FileTree) :
    (response.settle tree).2 = tree := by
  rw [Response.settle]
  split
  case h_1 path rom heq => exact absurd ⟨path, rom, heq⟩ h
  case h_2 => rfl

theorem execute_of_not_assemble
    (h : ∀ source output, Invocation.parse? words ≠ some (.assemble source output)) :
    (execute tree words).2 = tree := by
  rw [execute]
  split
  case h_1 invocation hwords =>
    refine settle_of_not_saves (not_saves_respond _ ?_) tree
    rintro source output rfl
    exact h source output hwords
  case h_2 => rfl

/-! ### What is left in the files -/

/-- The image of a text: the bytes of its program, and zeros behind them. -/
structure IsImage (text : List Char) (image : List UInt8) : Prop where
  length : image.length = 16
  padded : ∃ program, Assembly.assemble text = .ok program ∧
    image = program ++ List.replicate (16 - program.length) 0

/-- At a path there are given bytes now, and all other places are as they were. -/
structure OnlyWritten (tree : FileTree) (path : List Char) (bytes : List UInt8)
    (next : FileTree) : Prop where
  read : next.read path = .ok bytes
  place : ∃ place, tree.locate path = .ok place ∧ next.node? place = some (.file bytes) ∧
    ∀ other, other ≠ place → next.node? other = tree.node? other

theorem isImage_of_assemble {text : List Char} {program : List UInt8}
    (h : Assembly.assemble text = .ok program) : IsImage text (Rom.ofImage program).bytes :=
  ⟨Rom.length_bytes _, program, h, Rom.bytes_ofImage_eq (Assembly.length_le_of_assemble h)⟩

theorem onlyWritten_of_write {bytes : List UInt8} (h : tree.write target bytes = .ok next) :
    OnlyWritten tree target bytes next := by
  refine ⟨FileTree.read_of_write h, ?_⟩
  obtain ⟨-, place, hplace, hnode, rfl⟩ := FileTree.write_eq_ok_iff.mp h
  have hroot : place ≠ [] := by
    rintro rfl
    exact hnode rfl
  exact ⟨place, hplace, FileTree.node_set_self tree hroot _,
    fun other hother => FileTree.node_set_other tree hother _⟩

/-- What assembling a source leaves behind, by its exit code. -/
structure OneFileOrNone (tree : FileTree) (source : List Char) (output : Option (List Char))
    (exitCode : Nat) (next : FileTree) : Prop where
  success : exitCode = 0 → ∃ text image,
    tree.read source = .ok (text.flatMap String.utf8EncodeChar) ∧ IsImage text image ∧
      OnlyWritten tree (outputPath source output) image next
  path : exitCode = 0 → tree.Grounded → ImagePath source output (outputPath source output)
  failure : exitCode ≠ 0 → exitCode = 1 ∧ next = tree
  failure_iff : exitCode = 1 ↔ Obstacle tree source (outputPath source output)

theorem Settled.oneFileOrNone {exitCode : Nat}
    (h : Settled tree source (outputPath source output) exitCode next) :
    OneFileOrNone tree source output exitCode next := by
  cases h with
  | @saved text program next hread hassemble hsave =>
    refine ⟨fun _ => ⟨text, _, hread, isImage_of_assemble hassemble, onlyWritten_of_write hsave⟩,
      fun _ htree => imagePath_of_writable htree hread ⟨_, _, hsave⟩, ?_, ?_⟩
    · exact fun hzero => absurd rfl hzero
    · exact iff_of_false Nat.zero_ne_one fun h => h.not_saved hread hassemble hsave
  | failed hobstacle =>
    exact ⟨nofun, nofun, fun _ => ⟨rfl, rfl⟩, iff_of_true rfl hobstacle⟩

/-- **Assembling touches one file or none.**  If it succeeds, then the file at the path
for the image holds the program, padded with zeros to 16 bytes, and nothing else has
changed.  It fails if the source cannot be read, is not a text or has a fault, or if
nothing can be written at the path, and then nothing at all has changed.  No other
command line changes anything. -/
theorem one_file_or_none (tree : FileTree) (words : List (List Char)) :
    (∀ source output, Invocation.parse? words = some (.assemble source output) →
        OneFileOrNone tree source output (execute tree words).1.exitCode
          (execute tree words).2) ∧
      ((∀ source output, Invocation.parse? words ≠ some (.assemble source output)) →
        (execute tree words).2 = tree) :=
  ⟨fun _ _ hwords => (settled_execute tree hwords).oneFileOrNone, execute_of_not_assemble⟩

/-- A jump to nowhere leaves the image of an earlier version alone, and a program that
is in order takes its place. -/
theorem one_file_or_none_jump :
    ((execute ⟨[(["a.s".toList], .file [0x6A, 0x6D, 0x70, 0x20, 0x62]),
          (["a.bin".toList], .file [0xF3])], []⟩ ["asm".toList, "a.s".toList]).1.exitCode = 1 ∧
        (execute ⟨[(["a.s".toList], .file [0x6A, 0x6D, 0x70, 0x20, 0x62]),
          (["a.bin".toList], .file [0xF3])], []⟩ ["asm".toList, "a.s".toList]).2
            = ⟨[(["a.s".toList], .file [0x6A, 0x6D, 0x70, 0x20, 0x62]),
              (["a.bin".toList], .file [0xF3])], []⟩) ∧
      (execute ⟨[(["a.s".toList], .file [0x6A, 0x6D, 0x70, 0x20, 0x30]),
          (["a.bin".toList], .file [0xF3])], []⟩ ["asm".toList, "a.s".toList]).1.exitCode = 0 ∧
        ImagePath "a.s".toList none "a.bin".toList := by
  have hwords : Invocation.parse? ["asm".toList, "a.s".toList] = some (.assemble "a.s".toList none) := by
    decide
  constructor
  · have h := (one_file_or_none ⟨[(["a.s".toList], .file [0x6A, 0x6D, 0x70, 0x20, 0x62]),
      (["a.bin".toList], .file [0xF3])], []⟩ _).1 _ _ hwords
    have hexit := h.failure_iff.mpr (.faulty "jmp b".toList ⟨1, .undefinedLabel "b".toList⟩ (by decide)
      (by decide))
    exact h.failure (by rw [hexit]; exact Nat.one_ne_zero)
  · have h := (one_file_or_none ⟨[(["a.s".toList], .file [0x6A, 0x6D, 0x70, 0x20, 0x30]),
      (["a.bin".toList], .file [0xF3])], []⟩ _).1 _ _ hwords
    have hexit : (execute ⟨[(["a.s".toList], .file [0x6A, 0x6D, 0x70, 0x20, 0x30]),
        (["a.bin".toList], .file [0xF3])], []⟩ ["asm".toList, "a.s".toList]).1.exitCode = 0 := by
      decide
    exact ⟨hexit, h.path hexit (by decide)⟩

end CommandLine
end TD4
