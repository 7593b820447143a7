/-
Assembling first, or when the program is loaded.

A source can be assembled to an image that is run, traced or listed afterwards, or
it can be run, traced or listed itself, and is then assembled as it is loaded.

* `assembleFile_cases` and `respond_of_load_error`: whether a source loads decides how
  assembling it ends, and without loading it nothing is done with it;
* `loadProgram_after_save`: once the image is saved, both paths load the same ROM,
  since the source is not written over (`locate_ne_of_isSource_ne`);
* `alike_respond`: the answers about two paths that load the same ROM differ in the
  line that names the path (`Alike`);
* `assembling_first` puts them together for whole command lines.
-/
import TD4.CommandLine.Execute
import TD4.Proofs.CommandLine.Program
import TD4.Proofs.Image

namespace TD4
namespace CommandLine

variable {files : FileView} {tree next : FileTree} {source image first second : List Char}
  {rom : Rom} {e : Image.Error} {invocation : Invocation}

/-! ### Answers about two programs -/

/-- The line in which an answer names the program. -/
def Invocation.heading : Invocation → List String
  | .run request => ["🔧 Running: " ++ String.ofList request.program]
  | .disassemble program => ["📖 Disassembling: " ++ String.ofList program]
  | _ => []

/-- Two answers that differ in their headings only.  An answer that comes before the
program is looked at has no lines at all. -/
structure Alike (one other : Invocation) (first second : Report) : Prop where
  exitCode : first.exitCode = second.exitCode
  complaint : first.complaint = second.complaint
  lines : (first.lines = [] ∧ second.lines = []) ∨
    ∃ rest, first.lines = one.heading ++ rest ∧ second.lines = other.heading ++ rest

/-- Responses that differ in their headings lead to answers that do. -/
theorem alike_settle (one other : Invocation) (rest : List String) (ending : Ending)
    (tree : FileTree) :
    Alike one other (Response.settle ⟨one.heading ++ rest, ending⟩ tree).1
      (Response.settle ⟨other.heading ++ rest, ending⟩ tree).1 := by
  cases ending with
  | success => exact ⟨rfl, rfl, .inr ⟨rest, rfl, rfl⟩⟩
  | failure complaint => exact ⟨rfl, rfl, .inr ⟨rest, rfl, rfl⟩⟩
  | save path rom =>
    simp only [Response.settle]
    rcases Image.save tree path rom with e | next
    · exact ⟨rfl, rfl, .inr ⟨rest, rfl, rfl⟩⟩
    · exact ⟨rfl, rfl, .inr ⟨rest ++ _, List.append_assoc _ _ _, List.append_assoc _ _ _⟩⟩

/-- After its first line the response to a run does not depend on the path. -/
theorem exists_runResponse (json : Bool) (report : RunReport) (cpu : Cpu) :
    ∃ rest ending, ∀ program,
      runResponse program json report cpu
        = ⟨["🔧 Running: " ++ String.ofList program] ++ rest, ending⟩ := by
  have hheader : ∀ program, runHeader program report ++ resultLines json cpu
      = ["🔧 Running: " ++ String.ofList program] ++ (["", "━━━ Result ━━━",
        "Steps: " ++ toString report.steps] ++ resultLines json cpu) := fun _ => rfl
  simp only [runResponse, hheader]
  split
  case h_1 => exact ⟨_, _, fun _ => congrArg (Response.mk · _) (List.append_assoc _ _ _)⟩
  case h_2 => exact ⟨_, _, fun _ => rfl⟩
  case h_3 => exact ⟨_, _, fun _ => congrArg (Response.mk · _) (List.append_assoc _ _ _)⟩

/-- The answers about two programs with one ROM are alike. -/
theorem alike_respond (hfirst : Image.loadProgram files first = .ok rom)
    (hsecond : Image.loadProgram files second = .ok rom)
    (hprogram : invocation.program? = some first) (tree : FileTree) :
    Alike invocation (invocation.withProgram second) ((respond files invocation).settle tree).1
      ((respond files (invocation.withProgram second)).settle tree).1 := by
  cases invocation with
  | banner => cases hprogram
  | version => cases hprogram
  | assemble => cases hprogram
  | run request =>
    cases hprogram
    have hsettings : RunRequest.baseSettings { request with program := second } files
        = request.baseSettings files := rfl
    simp only [respond, Invocation.withProgram, respondRun, hsettings]
    rcases request.baseSettings files with complaint | base
    · exact ⟨rfl, rfl, .inl ⟨rfl, rfl⟩⟩
    · simp only [runProgram, loadOr, hfirst, hsecond]
      have hconfig : RunRequest.settings { request with program := second } base
          = request.settings base := rfl
      rw [hconfig]
      have halike : ∀ report cpu, Alike (.run request) (.run { request with program := second })
          ((runResponse request.program request.json report cpu).settle tree).1
          ((runResponse second request.json report cpu).settle tree).1 := by
        intro report cpu
        obtain ⟨rest, ending, hresponse⟩ := exists_runResponse request.json report cpu
        rw [hresponse, hresponse]
        exact alike_settle (.run request) (.run { request with program := second }) rest ending tree
      split
      case h_1 => exact halike _ _
      case h_2 => exact halike _ _
  | trace program input steps =>
    cases hprogram
    have hsame : traceProgram files second input steps = traceProgram files first input steps := by
      rw [traceProgram, traceProgram, loadOr, loadOr, hfirst, hsecond]
    simp only [respond, Invocation.withProgram, hsame]
    exact alike_settle (.trace first input steps) (.trace second input steps) _ _ tree
  | disassemble program =>
    cases hprogram
    simp only [respond, Invocation.withProgram, disassembleFile, loadOr, hfirst, hsecond]
    exact alike_settle (.disassemble first) (.disassemble second) ["", _] .success tree

/-! ### Assembling a source -/

/-- A source is assembled to the ROM that it loads as, if it loads. -/
theorem assembleFile_cases (files : FileView) (hsource : Image.isSource source = true)
    (output : Option (List Char)) :
    (∃ rom lines, Image.loadProgram files source = .ok rom ∧
        assembleFile files source output = ⟨lines, .save (outputPath source output) rom⟩) ∨
      ∃ e lines complaint, Image.loadProgram files source = .error e ∧
        assembleFile files source output = .failed lines complaint := by
  rw [Image.loadProgram, if_pos hsource, Image.loadSource, assembleFile]
  rcases files.readText source with e | text
  · exact .inr ⟨_, _, _, rfl, rfl⟩
  · simp only
    rcases Assembly.assembleRom text with e | rom
    · exact .inr ⟨_, _, _, rfl, rfl⟩
    · exact .inl ⟨_, _, rfl, rfl⟩

/-- No command gets anything out of a source that does not load. -/
theorem respond_of_load_error (hsource : Image.isSource source = true)
    (h : Image.loadProgram files source = .error e)
    (hasked : invocation.program? = some source ∨ ∃ output, invocation = .assemble source output) :
    ∃ lines complaint, respond files invocation = .failed lines complaint := by
  rcases hasked with hprogram | ⟨output, rfl⟩
  · cases invocation with
    | banner => cases hprogram
    | version => cases hprogram
    | assemble => cases hprogram
    | run request =>
      cases hprogram
      rw [respond, respondRun]
      rcases request.baseSettings files with complaint | base
      · exact ⟨_, _, rfl⟩
      · simp only [runProgram, loadOr, h]
        exact ⟨_, _, rfl⟩
    | trace program input steps =>
      cases hprogram
      rw [respond, traceProgram, loadOr, h]
      exact ⟨_, _, rfl⟩
    | disassemble program =>
      cases hprogram
      rw [respond, disassembleFile, loadOr, h]
      exact ⟨_, _, rfl⟩
  · rcases assembleFile_cases files hsource output with ⟨_, _, hload, -⟩ | ⟨_, lines, complaint, -, heq⟩
    · rw [h] at hload
      cases hload
    · exact ⟨lines, complaint, heq⟩

/-! ### After the image is saved -/

/-- A path that reads as a source does not lead to the place of an image. -/
theorem locate_ne_of_isSource_ne {bytes : List UInt8} (htree : tree.Grounded)
    (hwrite : tree.Writable image) (hread : tree.read source = .ok bytes)
    (hne : Image.isSource source ≠ Image.isSource image) :
    tree.locate image ≠ tree.locate source := by
  intro hsame
  obtain ⟨_, _, hwrite⟩ := hwrite
  obtain ⟨himage, place, hplace, hnode, -⟩ := FileTree.write_eq_ok_iff.mp hwrite
  obtain ⟨hsource, there, hthere, hfile⟩ := FileTree.read_eq_ok_iff.mp hread
  rw [hplace, hthere] at hsame
  cases hsame
  refine hne ?_
  rw [Image.isSource, Image.isSource, FileTree.extension?_of_locate htree himage hplace hnode,
    FileTree.extension?_of_locate htree hsource hthere hnode]

/-- What a program loads as depends on its own file only. -/
theorem loadProgram_congr {others : FileView} (h : files source = others source) :
    Image.loadProgram files source = Image.loadProgram others source := by
  simp only [Image.loadProgram, Image.loadSource, Image.load, FileView.readText, h]

theorem exists_read_of_load (h : Image.loadProgram files source = .ok rom) :
    ∃ bytes, files source = .ok bytes := by
  rcases hfile : files source with e | bytes
  · simp only [Image.loadProgram, Image.loadSource, Image.load, FileView.readText, hfile] at h
    split at h <;> cases h
  · exact ⟨bytes, rfl⟩

/-- Once the image is saved, it loads as the ROM, and so does the source still. -/
theorem loadProgram_after_save (htree : tree.Grounded) (hsource : Image.isSource source = true)
    (himage : Image.isSource image = false) (hload : Image.loadProgram tree.read source = .ok rom)
    (hsave : Image.save tree image rom = .ok next) :
    Image.loadProgram next.read source = .ok rom ∧ Image.loadProgram next.read image = .ok rom := by
  obtain ⟨bytes, hbytes⟩ := exists_read_of_load hload
  have hplaces : tree.locate image ≠ tree.locate source :=
    locate_ne_of_isSource_ne htree ⟨_, _, hsave⟩ hbytes (by rw [hsource, himage]; decide)
  have hsaved := Image.saved_of_save hsave
  have hname : ¬ Image.NamedSource image := fun h => by
    rw [Image.isSource_iff.mpr h] at himage
    cases himage
  constructor
  · rw [← hload]
    exact loadProgram_congr ((hsaved.others _ _ hbytes hplaces).trans hbytes.symm)
  · exact hsaved.program hname

/-! ### Whole command lines -/

/-- How assembling to a given path goes. -/
theorem execute_assemble_cases (tree : FileTree) {words : List (List Char)}
    (hsource : Image.isSource source = true)
    (hwords : Invocation.parse? words = some (.assemble source (some image))) :
    (∃ rom next, Image.loadProgram tree.read source = .ok rom ∧
        Image.save tree image rom = .ok next ∧ (execute tree words).1.exitCode = 0 ∧
        (execute tree words).2 = next) ∨
      ((execute tree words).1.exitCode = 1 ∧ ∀ rom, Image.loadProgram tree.read source = .ok rom →
        ¬tree.Writable image) := by
  rw [execute, hwords]
  rcases assembleFile_cases tree.read hsource (some image) with
    ⟨rom, lines, hload, heq⟩ | ⟨e, lines, complaint, hload, heq⟩
  · simp only [respond, heq, Response.settle, outputPath, Option.getD_some]
    rcases hsave : Image.save tree image rom with e | next
    · refine .inr ⟨rfl, fun _ _ hwritable => ?_⟩
      obtain ⟨next, hnext⟩ := hwritable.exists_write rom.bytes
      rw [Image.save, hnext] at hsave
      cases hsave
    · exact .inl ⟨rom, next, hload, hsave, rfl, rfl⟩
  · refine .inr ⟨?_, fun rom hrom => ?_⟩
    · simp only [respond, heq]
      rfl
    · rw [hload] at hrom
      cases hrom

/-- **Assembling first or on load makes no difference.**  A source, whose extension is
`s` or `asm`, is assembled to a path with another extension with success if the
source loads and the path can be written.  After that, every command line that
runs, traces or lists the source has its like about the image, and the answers are
the same but for the path in the heading.  If the source does not load, every
command about it fails and leaves all files alone. -/
theorem assembling_first {words : List (List Char)} (htree : tree.Grounded)
    (hsource : Image.isSource source = true) (himage : Image.isSource image = false)
    (hwords : Invocation.parse? words = some (.assemble source (some image))) :
    ((execute tree words).1.exitCode = 0 ↔
        tree.Writable image ∧ ∃ rom, Image.loadProgram tree.read source = .ok rom) ∧
      ((execute tree words).1.exitCode = 0 →
        ∀ invocation first, invocation.program? = some source →
          Invocation.parse? first = some invocation →
          (∃ second, Invocation.parse? second = some (invocation.withProgram image)) ∧
            ∀ second, Invocation.parse? second = some (invocation.withProgram image) →
              Alike invocation (invocation.withProgram image)
                (execute (execute tree words).2 first).1
                (execute (execute tree words).2 second).1) ∧
      ∀ e, Image.loadProgram tree.read source = .error e →
        ∀ invocation command, Invocation.parse? command = some invocation →
          (invocation.program? = some source ∨ ∃ output, invocation = .assemble source output) →
          (execute tree command).1.exitCode = 1 ∧ (execute tree command).2 = tree := by
  have hcases := execute_assemble_cases tree hsource hwords
  refine ⟨⟨fun hexit => ?_, ?_⟩, fun hexit invocation first hprogram hfirst => ?_,
    fun e hload invocation command hcommand hasked => ?_⟩
  · rcases hcases with ⟨rom, next, hload, hsave, -⟩ | ⟨hfailed, -⟩
    · exact ⟨⟨_, _, hsave⟩, rom, hload⟩
    · rw [hfailed] at hexit
      cases hexit
  · rintro ⟨hwritable, rom, hload⟩
    rcases hcases with ⟨_, _, -, -, hexit, -⟩ | ⟨-, hnot⟩
    · exact hexit
    · exact absurd hwritable (hnot rom hload)
  · refine ⟨exists_words_withProgram hfirst hprogram image, fun second hsecond => ?_⟩
    rcases hcases with ⟨rom, next, hload, hsave, -, hnext⟩ | ⟨hfailed, -⟩
    · obtain ⟨hkept, hsaved⟩ := loadProgram_after_save htree hsource himage hload hsave
      rw [hnext, execute, execute, hfirst, hsecond]
      exact alike_respond hkept hsaved hprogram next
    · rw [hfailed] at hexit
      cases hexit
  · obtain ⟨lines, complaint, heq⟩ := respond_of_load_error hsource hload hasked
    simp only [execute, hcommand, heq]
    exact ⟨rfl, rfl⟩

/-- A program that halts at once, assembled and then traced with the default options. -/
theorem assembling_first_halt :
    (execute ⟨[(["a.s".toList], .file [0x6A, 0x6D, 0x70, 0x20, 0x30])], []⟩
        ["asm".toList, "a.s".toList, "-oa".toList]).1.exitCode = 0 ∧
      Alike (.trace "a.s".toList 0 64) (.trace "a".toList 0 64)
        (execute (execute ⟨[(["a.s".toList], .file [0x6A, 0x6D, 0x70, 0x20, 0x30])], []⟩
          ["asm".toList, "a.s".toList, "-oa".toList]).2 ["trace".toList, "a.s".toList]).1
        (execute (execute ⟨[(["a.s".toList], .file [0x6A, 0x6D, 0x70, 0x20, 0x30])], []⟩
          ["asm".toList, "a.s".toList, "-oa".toList]).2 ["trace".toList, "a".toList]).1 := by
  have htree : FileTree.Grounded ⟨[(["a.s".toList], .file [0x6A, 0x6D, 0x70, 0x20, 0x30])], []⟩ := by
    decide
  have hwords : Invocation.parse? ["asm".toList, "a.s".toList, "-oa".toList]
      = some (.assemble "a.s".toList (some "a".toList)) := by
    decide
  have h := assembling_first htree (by decide) (by decide) hwords
  have hexit := h.1.mpr ⟨⟨[], _, rfl⟩, .ofImage [0xF0], by decide⟩
  exact ⟨hexit, (h.2.1 hexit _ _ rfl (by decide)).2 _ (by decide)⟩

end CommandLine
end TD4
