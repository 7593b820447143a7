/-
The answer to a command line.

* `respond` answers an invocation from a view of the files;
* `execute` answers a command line on a tree of files, and gives the tree after
  it, which differs only where an image was saved.
-/
import TD4.CommandLine.Run
import TD4.CommandLine.Trace
import TD4.CommandLine.Assemble

namespace TD4
namespace CommandLine

/-- What is said when nothing is asked for. -/
def bannerLines : List String :=
  ["TD4 Emulator v0.1.0", "A 4-bit CPU with 16 bytes of ROM", "",
    "Use --help for available commands"]

/-- Answer an invocation. -/
def respond (files : FileView) : Invocation → Response
  | .banner => ⟨bannerLines, .success⟩
  | .version => ⟨["td4-emu 0.1.0"], .success⟩
  | .run request => respondRun files request
  | .trace program input steps => traceProgram files program input steps
  | .assemble source output => assembleFile files source output
  | .disassemble program => disassembleFile files program

/-- Carry out what a response still has to do on a tree of files. -/
def Response.settle (response : Response) (tree : FileTree) : Report × FileTree :=
  match response.ending with
  | .save path rom =>
    match Image.save tree path rom with
    | .ok next => (response.report (.ok ()), next)
    | .error e => (response.report (.error e), tree)
  | _ => (response.report (.ok ()), tree)

/-- Answer a command line on a tree of files. -/
def execute (tree : FileTree) (words : List (List Char)) : Report × FileTree :=
  match Invocation.parse? words with
  | some invocation => (respond tree.read invocation).settle tree
  | none => (.usage, tree)

end CommandLine
end TD4
