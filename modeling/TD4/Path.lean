/-
Paths as texts.

* `names` are the names in a path, in order;
* `split?` parts a path into what stands before its last name and that name;
* `extension?` is what follows the last dot of the last name, unless that dot
  begins the name;
* `withExtension` puts another extension in its place.

Slashes and single dots at the end of a path do not count as names.
-/

namespace TD4
namespace Path

/-- The names in a path. -/
def names (path : List Char) : List (List Char) :=
  (path.splitOn '/').filter fun name => !name.isEmpty

/-- Drop slashes and single dots from the end of a path, both given in reverse. -/
def dropTail : List Char → List Char
  | '/' :: rest => dropTail rest
  | '.' :: '/' :: rest => dropTail rest
  | path => path

/-- What stands before the last name of a path, and the name.  A path that ends
in a dot or in two dots leads to a directory and has no last name. -/
def split? (path : List Char) : Option (List Char × List Char) :=
  let rest := dropTail path.reverse
  let name := (rest.takeWhile fun c => c != '/').reverse
  if name = [] ∨ name = ['.'] ∨ name = ['.', '.'] then none
  else some ((rest.dropWhile fun c => c != '/').reverse, name)

/-- A name without its extension, and the extension. -/
def splitName (name : List Char) : List Char × Option (List Char) :=
  match name.reverse.dropWhile fun c => c != '.' with
  | [] => (name, none)
  | [_] => (name, none)
  | _ :: stem => (stem.reverse, some (name.reverse.takeWhile fun c => c != '.').reverse)

/-- The extension of a path. -/
def extension? (path : List Char) : Option (List Char) :=
  match split? path with
  | some (_, name) => (splitName name).2
  | none => none

/-- A path with another extension.  First as many characters as the old
extension has are cut off the end; if what is left still ends in a name, the
new extension takes the place of whatever extension that name has. -/
def withExtension (path extension : List Char) : List Char :=
  let base := match extension? path with
    | some old => path.take (path.length - old.length)
    | none => path
  match split? base with
  | some (front, name) => front ++ (splitName name).1 ++ '.' :: extension
  | none => base

end Path
end TD4
