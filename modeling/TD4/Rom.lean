/-
The program store: 16 bytes, addressed by a nibble.

A `Rom` is a vector of 16 cells.  It is built from an image, which is a list of
bytes: `ofImage` pads a short image with zeros and cuts a long one, while
`ofImageStrict` refuses a long one.  It is read in two ways: `fetch` uses the
low nibble of an address and always succeeds, `read` checks the whole address.

* `read_eq`, `fetch_eq`: both read the list `bytes`;
* `bytes_ofImage`, `bytes_write`: what the constructors and writes do to it.
-/
import TD4.Fault
import TD4.Nibble

namespace TD4

/-- The 16 bytes of the program store. -/
structure Rom where
  cells : Vector UInt8 16
  deriving DecidableEq

namespace Rom

/-- The number of bytes in the store. -/
def size : Nat := 16

/-- The store that holds zero, which reads as `nop`, at every address. -/
def empty : Rom := ⟨Vector.replicate 16 0⟩

/-- The store that holds the first 16 bytes of an image, and zero beyond its end. -/
def ofImage (image : List UInt8) : Rom :=
  ⟨Vector.ofFn fun i => image.getD i.val 0⟩

/-- The store that holds an image, which must not be longer than the store. -/
def ofImageStrict (image : List UInt8) : Except Fault Rom :=
  if image.length ≤ size then .ok (ofImage image) else .error .romOverflow

/-- The byte at the address given by the low nibble of a cell. -/
def fetch (rom : Rom) (addr : UInt8) : UInt8 :=
  rom.cells.get ⟨addr.toNat % 16, Nat.mod_lt _ (by decide)⟩

/-- The byte at an address, which must lie within the store. -/
def read (rom : Rom) (addr : Nat) : Except Fault UInt8 :=
  match rom.cells[addr]? with
  | some byte => .ok byte
  | none => .error .romOverflow

/-- Replace the byte at an address, which must lie within the store. -/
def write (rom : Rom) (addr : Nat) (byte : UInt8) : Except Fault Rom :=
  if h : addr < 16 then .ok ⟨rom.cells.set addr byte h⟩ else .error .romOverflow

/-- All 16 bytes in address order. -/
def bytes (rom : Rom) : List UInt8 := rom.cells.toList

/-- All 16 bytes in address order, each with its address. -/
def entries (rom : Rom) : List (Nat × UInt8) := (List.range 16).zip rom.bytes

@[simp] theorem length_bytes (rom : Rom) : rom.bytes.length = 16 := by
  simp [bytes]

theorem ext_bytes {r s : Rom} (h : r.bytes = s.bytes) : r = s := by
  cases r
  cases s
  simp only [bytes, Vector.toList_inj] at h
  rw [h]

theorem getElem?_bytes (rom : Rom) (i : Nat) : rom.bytes[i]? = rom.cells[i]? := by
  simp [bytes]

theorem bytes_ofImage (image : List UInt8) (i : Nat) (h : i < 16) :
    (ofImage image).bytes[i]? = some (image.getD i 0) := by
  simp [bytes, ofImage, h]

theorem read_eq (rom : Rom) (addr : Nat) :
    rom.read addr = match rom.bytes[addr]? with
      | some byte => .ok byte
      | none => .error .romOverflow := by
  rw [getElem?_bytes]
  rfl

theorem fetch_eq (rom : Rom) (addr : UInt8) :
    rom.bytes[addr.toNat % 16]? = some (rom.fetch addr) := by
  have h : addr.toNat % 16 < 16 := Nat.mod_lt _ (by decide)
  simp [fetch, bytes, Vector.get, h]

theorem bytes_write {rom next : Rom} {addr : Nat} {byte : UInt8}
    (h : rom.write addr byte = .ok next) : next.bytes = rom.bytes.set addr byte := by
  unfold write at h
  split at h
  · cases h
    simp [bytes, Vector.set, Vector.toList]
  · cases h

end Rom
end TD4
