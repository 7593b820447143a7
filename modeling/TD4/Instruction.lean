/-
Instructions and their bytes.

An instruction is an operation with an immediate nibble.  Its byte has the
opcode in the high and the immediate in the low half.  Twelve of the sixteen
opcodes name an operation.

* `Operation.ofOpcode?_opcode`, `Operation.opcode_of_ofOpcode?`: operations and
  the used opcodes correspond one to one;
* `encode_of_decode`: an instruction read from a byte is written as that byte;
* `decode_encode`: an instruction written as a byte is read with the low nibble
  of its immediate.

Operations that ignore their immediate still carry it, so that the byte is not
lost.  An instruction put together from parts may hold a wide immediate; its
byte has the low nibble of it.
-/
import TD4.Fault
import TD4.Nibble

namespace TD4

/-- The twelve operations of the machine. -/
inductive Operation
  /-- A takes A plus the immediate; the carry is renewed. -/
  | addA
  /-- A takes B. -/
  | movAB
  /-- A takes the input port. -/
  | inA
  /-- A takes the immediate. -/
  | movA
  /-- B takes A. -/
  | movBA
  /-- B takes B plus the immediate; the carry is renewed. -/
  | addB
  /-- B takes the input port. -/
  | inB
  /-- B takes the immediate. -/
  | movB
  /-- The output port takes B plus the immediate; the carry is renewed. -/
  | outB
  /-- The output port takes the immediate. -/
  | out
  /-- Jump to the immediate if the carry is clear. -/
  | jnc
  /-- Jump to the immediate. -/
  | jmp
  deriving DecidableEq, Repr

namespace Operation

/-- The nibble that stands for an operation in the high half of a byte. -/
def opcode : Operation → UInt8
  | addA => 0x0
  | movAB => 0x1
  | inA => 0x2
  | movA => 0x3
  | movBA => 0x4
  | addB => 0x5
  | inB => 0x6
  | movB => 0x7
  | outB => 0x9
  | out => 0xB
  | jnc => 0xE
  | jmp => 0xF

/-- The operation that an opcode names, if any. -/
def ofOpcode? (opcode : UInt8) : Option Operation :=
  match opcode.toNat with
  | 0x0 => some addA
  | 0x1 => some movAB
  | 0x2 => some inA
  | 0x3 => some movA
  | 0x4 => some movBA
  | 0x5 => some addB
  | 0x6 => some inB
  | 0x7 => some movB
  | 0x9 => some outB
  | 0xB => some out
  | 0xE => some jnc
  | 0xF => some jmp
  | _ => none

theorem ofOpcode?_opcode (op : Operation) : ofOpcode? op.opcode = some op := by
  cases op <;> rfl

theorem opcode_of_ofOpcode? {code : UInt8} {op : Operation} (h : ofOpcode? code = some op) :
    op.opcode = code := by
  apply UInt8.toNat_inj.mp
  unfold ofOpcode? at h
  split at h <;> first | (cases h; simp_all [opcode]) | cases h

theorem opcode_lt (op : Operation) : op.opcode.toNat < 16 := by
  cases op <;> decide

end Operation

/-- An operation with its immediate. -/
structure Instruction where
  operation : Operation
  immediate : UInt8
  deriving DecidableEq, Repr

namespace Instruction

/-- The opcode and the immediate in a byte. -/
def split (byte : UInt8) : UInt8 × UInt8 := (byte >>> 4, Nibble.low byte)

/-- The instruction with a given opcode and immediate. -/
def ofParts (opcode immediate : UInt8) : Except Fault Instruction :=
  match Operation.ofOpcode? opcode with
  | some op => .ok ⟨op, immediate⟩
  | none => .error (.invalidOpcode opcode)

/-- Read the instruction in a byte. -/
def decode (byte : UInt8) : Except Fault Instruction :=
  ofParts (split byte).1 (split byte).2

/-- The byte of an instruction.  Of a wide immediate the low nibble counts. -/
def encode (i : Instruction) : UInt8 :=
  (i.operation.opcode <<< 4) ||| Nibble.low i.immediate

/-- The two halves of a byte put together give the byte. -/
theorem halves (byte : UInt8) : ((byte >>> 4) <<< 4) ||| Nibble.low byte = byte := by
  apply UInt8.toNat_inj.mp
  have hb : byte.toNat < 256 := byte.toNat_lt
  have hlow : byte.toNat % 16 < 2 ^ 4 := Nat.mod_lt _ (by decide)
  have hhigh : ((byte >>> 4) <<< 4).toNat = (byte.toNat / 16) <<< 4 := by
    simp [UInt8.toNat_shiftLeft, UInt8.toNat_shiftRight, Nat.shiftRight_eq_div_pow,
      Nat.shiftLeft_eq]
    omega
  rw [UInt8.toNat_or, hhigh, Nibble.toNat_low, ← Nat.shiftLeft_add_eq_or_of_lt hlow,
    Nat.shiftLeft_eq]
  omega

theorem encode_of_decode {byte : UInt8} {i : Instruction} (h : decode byte = .ok i) :
    encode i = byte := by
  unfold decode ofParts at h
  split at h
  next op hop =>
    cases h
    simp only [encode, split, Operation.opcode_of_ofOpcode? hop, Nibble.low_low]
    exact halves byte
  next => cases h

/-- The byte of an instruction is its opcode above the low nibble of its immediate. -/
theorem toNat_encode (i : Instruction) :
    (encode i).toNat = 16 * i.operation.opcode.toNat + i.immediate.toNat % 16 := by
  have hopcode := i.operation.opcode_lt
  have hlow : i.immediate.toNat % 16 < 2 ^ 4 := Nat.mod_lt _ (by decide)
  have hhigh : (i.operation.opcode <<< 4).toNat = i.operation.opcode.toNat <<< 4 := by
    simp [UInt8.toNat_shiftLeft, Nat.shiftLeft_eq]
    omega
  rw [encode, UInt8.toNat_or, hhigh, Nibble.toNat_low, ← Nat.shiftLeft_add_eq_or_of_lt hlow,
    Nat.shiftLeft_eq]
  omega

theorem split_encode (i : Instruction) :
    split (encode i) = (i.operation.opcode, Nibble.low i.immediate) := by
  refine Prod.ext (UInt8.toNat_inj.mp ?_) (UInt8.toNat_inj.mp ?_)
  · have hhigh : (encode i >>> 4).toNat = (encode i).toNat / 16 := by
      simp [UInt8.toNat_shiftRight, Nat.shiftRight_eq_div_pow]
    show (encode i >>> 4).toNat = i.operation.opcode.toNat
    rw [hhigh, toNat_encode]
    omega
  · show (Nibble.low (encode i)).toNat = (Nibble.low i.immediate).toNat
    rw [Nibble.toNat_low, Nibble.toNat_low, toNat_encode]
    omega

theorem decode_encode (i : Instruction) :
    decode (encode i) = .ok ⟨i.operation, Nibble.low i.immediate⟩ := by
  rw [decode, split_encode, ofParts, Operation.ofOpcode?_opcode]

end Instruction
end TD4
