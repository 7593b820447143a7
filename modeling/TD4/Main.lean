/-
The program.

It reads the files that the command line names, has the answer worked out from
them, saves the image if there is one to save, and prints.
-/
import TD4.CommandLine.Execute

namespace TD4
namespace Main

/-- The number of a system error.  Some calls give it with a minus sign. -/
def errorNumber (code : UInt32) : UInt32 := min code (0 - code)

/-- A failure of the system as a file error. -/
def fileError (e : IO.Error) : FileError :=
  match e with
  | .noFileOrDirectory .. => .notFound
  | .inappropriateType _ code _ =>
    if errorNumber code = 20 then .notDirectory else .isDirectory
  | .invalidArgument _ code _ =>
    if errorNumber code = 36 then .nameTooLong else .other (toString e)
  | _ => .other (toString e)

/-- Read a file from the disk. -/
def readFile (path : List Char) : IO (Except FileError (List UInt8)) := do
  try
    let bytes ← IO.FS.readBinFile (String.ofList path)
    return .ok bytes.data.toList
  catch e => return .error (fileError e)

/-- Write a file to the disk. -/
def writeFile (path : List Char) (bytes : List UInt8) : IO (Except FileError Unit) := do
  try
    IO.FS.writeBinFile (String.ofList path) ⟨bytes.toArray⟩
    return .ok ()
  catch e => return .error (fileError e)

/-- How the files an invocation reads stand on the disk. -/
def viewFor (invocation : CommandLine.Invocation) : IO FileView := do
  let found ← invocation.reads.mapM fun path => return (path, ← readFile path)
  return fun path => (found.lookup path).getD (.error .notFound)

/-- Save what a response has to save. -/
def save (response : CommandLine.Response) : IO (Except FileError Unit) :=
  match response.ending with
  | .save path rom => writeFile path rom.bytes
  | _ => return .ok ()

/-- Answer a command line. -/
def report (words : List (List Char)) : IO CommandLine.Report := do
  match CommandLine.Invocation.parse? words with
  | none => return .usage
  | some invocation =>
    let response := CommandLine.respond (← viewFor invocation) invocation
    return response.report (← save response)

end Main
end TD4

def main (args : List String) : IO UInt32 := do
  let report ← TD4.Main.report (args.map String.toList)
  for line in report.lines do
    IO.println line
  for complaint in report.complaint do
    IO.eprintln complaint
  return UInt32.ofNat report.exitCode
