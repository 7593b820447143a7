/-
Files as a program reads them.

A `FileView` says what each path reads as: bytes, or why it cannot be read.
Everything that only reads files is a function of a view, so it does not matter
whether the files are on a disk or in a `FileTree`.

* `readText` reads a file as UTF-8.
-/

namespace TD4

/-- Why a file cannot be read or written. -/
inductive FileError
  | notFound
  /-- A name on the way is that of a file. -/
  | notDirectory
  | isDirectory
  | nameTooLong
  /-- The path holds the zero character. -/
  | zeroInPath
  /-- The bytes of the file are not UTF-8. -/
  | notText
  /-- Anything else, in the words of the system. -/
  | other (description : String)
  deriving DecidableEq, Repr

/-- The wording of a file error. -/
def FileError.message : FileError → String
  | notFound => "No such file or directory (os error 2)"
  | notDirectory => "Not a directory (os error 20)"
  | isDirectory => "Is a directory (os error 21)"
  | nameTooLong => "File name too long (os error 36)"
  | zeroInPath => "file name contained an unexpected NUL byte"
  | notText => "stream did not contain valid UTF-8"
  | other description => description

/-- What each path reads as. -/
abbrev FileView := List Char → Except FileError (List UInt8)

namespace FileView

/-- The text with a given UTF-8 form. -/
def textOfBytes? (bytes : List UInt8) : Option (List Char) :=
  (ByteArray.mk bytes.toArray).utf8Decode?.map Array.toList

/-- Read a file as text. -/
def readText (files : FileView) (path : List Char) : Except FileError (List Char) :=
  match files path with
  | .error e => .error e
  | .ok bytes =>
    match textOfBytes? bytes with
    | some text => .ok text
    | none => .error .notText

end FileView
end TD4
