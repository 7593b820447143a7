/-
What an operation does to the registers.

* `Bounded` says that every register holds a nibble; no operation leads out of
  the bounded registers (`Bounded.perform`, `Bounded.clockCarry`);
* three operations go through the adder (`addend?`), and only these write the
  carry and its latch (`carry_perform`, `latch_perform`);
* `clockCarry` moves nothing but the carry and its latch, and tells by these two
  alone what becomes of them (`carry_clockCarry`, `latch_clockCarry`).
-/
import TD4.Cpu
import TD4.Cpu.Command

namespace TD4

theorem Nibble.toNat_low_le (x : UInt8) : (Nibble.low x).toNat ≤ 15 :=
  Nat.le_of_lt_succ (Nibble.toNat_low_lt x)

namespace Registers

variable {r : Registers} {x : UInt8}

/-! ### Nibbles -/

structure Bounded (r : Registers) : Prop where
  a : r.a.toNat ≤ 15
  b : r.b.toNat ≤ 15
  input : r.input.toNat ≤ 15
  output : r.output.toNat ≤ 15
  pc : r.pc.toNat ≤ 15

namespace Bounded

theorem zero : Registers.zero.Bounded := by
  constructor <;> exact Nat.zero_le 15

theorem setA (h : r.Bounded) : (r.setA x).Bounded := { h with a := Nibble.toNat_low_le x }

theorem setB (h : r.Bounded) : (r.setB x).Bounded := { h with b := Nibble.toNat_low_le x }

theorem setInput (h : r.Bounded) : (r.setInput x).Bounded :=
  { h with input := Nibble.toNat_low_le x }

theorem setOutput (h : r.Bounded) : (r.setOutput x).Bounded :=
  { h with output := Nibble.toNat_low_le x }

theorem setPc (h : r.Bounded) : (r.setPc x).Bounded := { h with pc := Nibble.toNat_low_le x }

theorem advancePc (h : r.Bounded) : r.advancePc.Bounded :=
  { h with pc := Nibble.toNat_low_le (r.pc + 1) }

theorem setCarry (h : r.Bounded) (c : Bool) : (r.setCarry c).Bounded := { h with }

theorem captureCarry (h : r.Bounded) (c : Bool) : (r.captureCarry c).Bounded := { h with }

theorem clockCarry (h : r.Bounded) : r.clockCarry.Bounded := by
  rw [Registers.clockCarry]
  split
  · split
    · exact { h with }
    · exact { h with }
  · exact h

/-- Operations keep to nibbles, with any immediate. -/
theorem perform (h : r.Bounded) (op : Operation) (imm : UInt8) : (r.perform op imm).Bounded := by
  cases op with
  | addA => exact (h.setA.captureCarry _).advancePc
  | movAB => exact h.setA.advancePc
  | inA => exact h.setA.advancePc
  | movA => exact h.setA.advancePc
  | movBA => exact h.setB.advancePc
  | addB => exact (h.setB.captureCarry _).advancePc
  | inB => exact h.setB.advancePc
  | movB => exact h.setB.advancePc
  | outB => exact (h.setOutput.captureCarry _).advancePc
  | out => exact h.setOutput.advancePc
  | jnc =>
    rw [Registers.perform]
    split
    · exact h.advancePc
    · exact h.setPc
  | jmp => exact h.setPc

/-- Whatever a host writes into the registers, they hold nibbles. -/
theorem edit (h : r.Bounded) (edit : Edit) : (edit.apply r).Bounded := by
  cases edit with
  | a x => exact h.setA
  | b x => exact h.setB
  | input x => exact h.setInput
  | output x => exact h.setOutput
  | pc x => exact h.setPc
  | carry c => exact h.setCarry c
  | freshCarry c => exact h.captureCarry c
  | clock => exact h.clockCarry
  | advance => exact h.advancePc
  | clear => exact zero

end Bounded

/-- A program counter that an operation leaves is a nibble. -/
theorem toNat_pc_perform_lt (r : Registers) (op : Operation) (imm : UInt8) :
    (r.perform op imm).pc.toNat < 16 := by
  cases op
  case jnc =>
    rw [perform]
    split
    · exact Nibble.toNat_low_lt _
    · exact Nibble.toNat_low_lt _
  all_goals exact Nibble.toNat_low_lt _

/-! ### The carry -/

/-- The register that an operation sends through the adder, if it does. -/
def addend? (r : Registers) : Operation → Option UInt8
  | .addA => some r.a
  | .addB | .outB => some r.b
  | _ => none

/-- The carry comes out of the adder or stays. -/
theorem carry_perform (r : Registers) (op : Operation) (imm : UInt8) :
    (r.perform op imm).carry
      = match r.addend? op with
        | some x => (Nibble.add x imm).2
        | none => r.carry := by
  cases op
  case jnc =>
    rw [perform]
    split <;> rfl
  all_goals rfl

theorem latch_perform (r : Registers) (op : Operation) (imm : UInt8) :
    (r.perform op imm).latch
      = match r.addend? op with
        | some _ => false
        | none => r.latch := by
  cases op
  case jnc =>
    rw [perform]
    split <;> rfl
  all_goals rfl

theorem input_perform (r : Registers) (op : Operation) (imm : UInt8) :
    (r.perform op imm).input = r.input := by
  cases op
  case jnc =>
    rw [perform]
    split <;> rfl
  all_goals rfl

/-! ### The clock -/

theorem carry_clockCarry (r : Registers) : r.clockCarry.carry = (r.carry && !r.latch) := by
  rw [clockCarry]
  cases hcarry : r.carry <;> cases r.latch <;> simp [hcarry]

theorem latch_clockCarry (r : Registers) :
    r.clockCarry.latch = if r.carry then !r.latch else r.latch := by
  rw [clockCarry]
  cases hcarry : r.carry <;> cases hlatch : r.latch <;> simp [hlatch]

theorem clockCarry_eq (r : Registers) :
    r.clockCarry = { r with carry := r.clockCarry.carry, latch := r.clockCarry.latch } := by
  rw [clockCarry]
  cases r.carry <;> cases r.latch <;> rfl

end Registers
end TD4
