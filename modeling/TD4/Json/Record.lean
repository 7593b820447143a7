/-
Values read as data.

A record is a value with named fields.  It is written as an object, whose
members may stand in any order among members with other names, or as an array
of its fields in their order.  A field may be missing, but not be given twice.

* `fields?` finds the fields of a record;
* `allFields?` finds them where none may be missing;
* `byte?`, `word?` and `flag?` read single values; `ofByte` and `ofWord` write
  them.
-/
import TD4.Json.Tree

namespace TD4
namespace Json

/-- A natural number that fits in a byte. -/
def byte? : Json → Option UInt8
  | .natural n => if n < UInt8.size then some (UInt8.ofNat n) else none
  | _ => none

/-- A natural number that fits in 64 bits. -/
def word? : Json → Option UInt64
  | .natural n => if n < UInt64.size then some (UInt64.ofNat n) else none
  | _ => none

/-- A truth value. -/
def flag? : Json → Option Bool
  | .bool b => some b
  | _ => none

/-- A byte as a number. -/
def ofByte (b : UInt8) : Json := .natural b.toNat

/-- A number of 64 bits. -/
def ofWord (w : UInt64) : Json := .natural w.toNat

theorem byte?_ofByte (b : UInt8) : (ofByte b).byte? = some b := by
  show (if b.toNat < UInt8.size then some (UInt8.ofNat b.toNat) else none) = some b
  rw [if_pos b.toNat_lt, UInt8.ofNat_toNat]

theorem word?_ofWord (w : UInt64) : (ofWord w).word? = some w := by
  show (if w.toNat < UInt64.size then some (UInt64.ofNat w.toNat) else none) = some w
  rw [if_pos w.toNat_lt, UInt64.ofNat_toNat]

/-- The members of an object with their names put together. -/
def namedMembers? (members : List (List Symbol × Json)) : Option (List (List Char × Json)) :=
  members.mapM fun (name, value) => (decode name).map fun name => (name, value)

/-- The value of a field among members: nothing if it is missing, and a failure
if it is there more than once. -/
def fieldAmong? (members : List (List Char × Json)) (name : List Char) : Option (Option Json) :=
  match members.filter fun m => m.1 == name with
  | [] => some none
  | [m] => some (some m.2)
  | _ => none

/-- The fields of a record with given names, in the order of the names. -/
def fields? (names : List (List Char)) : Json → Option (List (Option Json))
  | .object members => do
    let named ← namedMembers? members
    names.mapM (fieldAmong? named)
  | .array items =>
    if items.length ≤ names.length then
      some (items.map some ++ List.replicate (names.length - items.length) none)
    else none
  | _ => none

/-- The fields of a record, none of which may be missing. -/
def allFields? (names : List (List Char)) (value : Json) : Option (List Json) :=
  (fields? names value).bind fun fields => fields.mapM id

end Json
end TD4
