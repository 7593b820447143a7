/-
Programs in files.

An image is the bytes of a ROM in address order.  A file is read as an image
(`load`, `loadStrict`) or as a program (`loadProgram`), which is an image unless
its name says that it is assembly.  `save` writes the whole ROM.
-/
import TD4.Assembly.Draft
import TD4.FileTree

namespace TD4
namespace Image

/-- Why a program cannot be loaded. -/
inductive Error
  | file (e : FileError)
  | rom (fault : Fault)
  | program (e : Assembly.Error)
  deriving DecidableEq, Repr

/-- The wording of an error. -/
def Error.message : Error → String
  | file e => "I/O error: " ++ e.message
  | rom fault => fault.message
  | program e => e.message

/-- Load an image, padded or cut to 16 bytes. -/
def load (files : FileView) (path : List Char) : Except Error Rom :=
  match files path with
  | .ok bytes => .ok (Rom.ofImage bytes)
  | .error e => .error (.file e)

/-- Load an image that must not be longer than the ROM. -/
def loadStrict (files : FileView) (path : List Char) : Except Error Rom :=
  match files path with
  | .ok bytes => (Rom.ofImageStrict bytes).mapError .rom
  | .error e => .error (.file e)

/-- Is the file at a path assembly, going by its name? -/
def isSource (path : List Char) : Bool :=
  Path.extension? path == some "s".toList || Path.extension? path == some "asm".toList

/-- Assemble the file at a path. -/
def loadSource (files : FileView) (path : List Char) : Except Error Rom :=
  match files.readText path with
  | .ok source => (Assembly.assembleRom source).mapError .program
  | .error e => .error (.file e)

/-- Load a program: assembly or an image. -/
def loadProgram (files : FileView) (path : List Char) : Except Error Rom :=
  if isSource path then loadSource files path else load files path

/-- Write all 16 bytes of a ROM to a file. -/
def save (tree : FileTree) (path : List Char) (rom : Rom) : Except FileError FileTree :=
  tree.write path rom.bytes

end Image
end TD4
