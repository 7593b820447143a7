/-
Assembling a source and listing a program.

* `assembleFile` assembles a source to an image, which it leaves to be saved at
  `outputPath`;
* `disassembleFile` shows the listing of a program.
-/
import TD4.CommandLine.Response
import TD4.Listing

namespace TD4
namespace CommandLine

/-- Where the image of a source goes: the given path, or that of the source with
the extension of images. -/
def outputPath (source : List Char) (output : Option (List Char)) : List Char :=
  output.getD (Path.withExtension source "bin".toList)

/-- Assemble a source. -/
def assembleFile (files : FileView) (source : List Char) (output : Option (List Char)) :
    Response :=
  let target := outputPath source output
  let lines := ["📝 Assembling: " ++ String.ofList source ++ " → " ++ String.ofList target]
  match files.readText source with
  | .error e => .failed lines ("Failed to read file: " ++ e.message)
  | .ok text =>
    match Assembly.assembleRom text with
    | .error e => .failed lines ("Assembly error: " ++ e.message)
    | .ok rom => ⟨lines, .save target rom⟩

/-- Show the listing of a program. -/
def disassembleFile (files : FileView) (program : List Char) : Response :=
  let lines := ["📖 Disassembling: " ++ String.ofList program, ""]
  loadOr files program lines fun rom =>
    ⟨lines ++ [String.ofList (Listing.text rom)], .success⟩

end CommandLine
end TD4
