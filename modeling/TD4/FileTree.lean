/-
A tree of files.

A `FileTree` knows what stands at each location: a file with its bytes, a
directory, or nothing.  Paths are resolved from a working directory.

* `locate` follows a path name by name; every name but the last must be that of
  a directory;
* `read` and `write` are what opening a file for reading and for writing does;
  `write` makes a file that is missing, but no directory.
* `node_set_self` and `node_set_other`: setting one location changes that one.
-/
import TD4.FileView
import TD4.Path

namespace TD4

/-- The names that lead from the root to a place. -/
abbrev Location := List (List Char)

/-- What stands at a location. -/
inductive Node
  | file (bytes : List UInt8)
  | directory
  deriving DecidableEq, Repr

/-- Files and directories by location.  The root is a directory. -/
structure FileTree where
  entries : List (Location × Node)
  workingDirectory : Location
  deriving DecidableEq, Repr

namespace FileTree

/-- What stands at a location. -/
def node? (tree : FileTree) (place : Location) : Option Node :=
  if place = [] then some .directory else tree.entries.lookup place

/-- Put something at a location. -/
def set (tree : FileTree) (place : Location) (node : Node) : FileTree :=
  { tree with entries := (place, node) :: tree.entries }

/-- All files, each with its location. -/
def files (tree : FileTree) : List (Location × List UInt8) :=
  (tree.entries.map Prod.fst).eraseDups.filterMap fun place =>
    match tree.node? place with
    | some (.file bytes) => some (place, bytes)
    | _ => none

/-- Put a file at a location, and directories at all locations on the way. -/
def addFile (tree : FileTree) (place : Location) (bytes : List UInt8) : FileTree :=
  let parents := (List.range place.length).map fun n => place.take n
  (parents.foldl (fun tree parent => tree.set parent .directory) tree).set place (.file bytes)

/-- The most bytes in a name. -/
def nameLimit : Nat := 255

/-- The most bytes in a path. -/
def pathLimit : Nat := 4095

/-- The number of bytes of a text in UTF-8. -/
def byteLength (text : List Char) : Nat := (String.ofList text).utf8ByteSize

/-- Follow a name from a location, where a directory must be. -/
def enter (tree : FileTree) (here : Location) (name : List Char) : Except FileError Location :=
  match tree.node? here with
  | none => .error .notFound
  | some (.file _) => .error .notDirectory
  | some .directory =>
    if name = ['.'] then .ok here
    else if name = ['.', '.'] then .ok here.dropLast
    else if nameLimit < byteLength name then .error .nameTooLong
    else .ok (here ++ [name])

/-- Follow names from a location. -/
def follow (tree : FileTree) : Location → List (List Char) → Except FileError Location
  | here, [] => .ok here
  | here, name :: rest =>
    match tree.enter here name with
    | .ok next => tree.follow next rest
    | .error e => .error e

/-- Where the names of a path are followed from, if they are followed at all. -/
def origin (tree : FileTree) (path : List Char) : Except FileError Location :=
  if path.contains '\x00' then .error .zeroInPath
  else if path.isEmpty then .error .notFound
  else if pathLimit < byteLength path then .error .nameTooLong
  else .ok (if path.head? = some '/' then [] else tree.workingDirectory)

/-- The location that a path leads to; there need not be anything. -/
def locate (tree : FileTree) (path : List Char) : Except FileError Location :=
  match tree.origin path with
  | .error e => .error e
  | .ok here => tree.follow here (Path.names path)

/-- The location of the directory that the last name of a path is looked up in,
which must be there. -/
def locateParent (tree : FileTree) (path : List Char) : Except FileError Location :=
  match tree.origin path with
  | .error e => .error e
  | .ok here => tree.follow here ((Path.names path).dropLast ++ [['.']])

/-- Does a path end in a slash? -/
def endsInSlash (path : List Char) : Bool := path.getLast? == some '/'

/-- Read the file at a path. -/
def read (tree : FileTree) : FileView := fun path =>
  match tree.locate path with
  | .error e => .error e
  | .ok place =>
    match tree.node? place with
    | none => .error .notFound
    | some .directory => .error .isDirectory
    | some (.file bytes) => if endsInSlash path then .error .notDirectory else .ok bytes

/-- Write the file at a path: a file that is there loses its bytes, and one that
is not there is made.  A path that ends in a slash names a directory, and is
refused as one before its last name is looked at. -/
def write (tree : FileTree) (path : List Char) (bytes : List UInt8) : Except FileError FileTree :=
  if endsInSlash path then
    match tree.locateParent path with
    | .error e => .error e
    | .ok _ => .error .isDirectory
  else
    match tree.locate path with
    | .error e => .error e
    | .ok place =>
      match tree.node? place with
      | some .directory => .error .isDirectory
      | _ => .ok (tree.set place (.file bytes))

theorem node_set_self (tree : FileTree) {place : Location} (h : place ≠ []) (node : Node) :
    (tree.set place node).node? place = some node := by
  simp [node?, set, h]

theorem node_set_other (tree : FileTree) {place other : Location} (h : other ≠ place)
    (node : Node) : (tree.set place node).node? other = tree.node? other := by
  have hbeq : (other == place) = false := beq_eq_false_iff_ne.mpr h
  simp [node?, set, List.lookup_cons, hbeq]

end FileTree
end TD4
