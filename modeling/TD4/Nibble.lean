/-
Four-bit arithmetic in eight-bit cells.

The machine's words are nibbles, but each is held in a `UInt8`, so a cell may
carry garbage in its high half.

* `low` keeps the low nibble of a cell; `toNat_low` says it is the remainder
  modulo 16;
* `add` is the adder: the sum modulo 16 and whether the true sum reached 16
  (`toNat_add_fst`, `add_snd`).
-/

namespace TD4
namespace Nibble

/-- The low nibble of a cell. -/
def low (x : UInt8) : UInt8 := x &&& 0x0F

/-- The sum of two nibbles and the carry out of it.  Only the low nibbles of
the arguments count, and their true sum fits in a cell. -/
def add (x y : UInt8) : UInt8 × Bool :=
  let sum := low x + low y
  (low sum, decide (0x0F < sum))

theorem toNat_low (x : UInt8) : (low x).toNat = x.toNat % 16 := by
  have h : x.toNat &&& (2 ^ 4 - 1) = x.toNat % 2 ^ 4 := Nat.and_two_pow_sub_one_eq_mod x.toNat 4
  simpa [low] using h

theorem toNat_low_lt (x : UInt8) : (low x).toNat < 16 := by
  rw [toNat_low]
  exact Nat.mod_lt _ (by decide)

theorem low_eq_self {x : UInt8} (h : x.toNat < 16) : low x = x := by
  apply UInt8.toNat_inj.mp
  rw [toNat_low, Nat.mod_eq_of_lt h]

theorem low_low (x : UInt8) : low (low x) = low x :=
  low_eq_self (toNat_low_lt x)

/-- The sum in the adder never leaves the cell. -/
theorem toNat_low_add_low (x y : UInt8) :
    (low x + low y).toNat = x.toNat % 16 + y.toNat % 16 := by
  rw [UInt8.toNat_add, toNat_low, toNat_low]
  omega

theorem toNat_add_fst (x y : UInt8) : (add x y).1.toNat = (x.toNat + y.toNat) % 16 := by
  simp only [add]
  rw [toNat_low, toNat_low_add_low]
  omega

theorem add_snd (x y : UInt8) :
    (add x y).2 = decide (16 ≤ x.toNat % 16 + y.toNat % 16) := by
  simp only [add, UInt8.lt_iff_toNat_lt, toNat_low_add_low, UInt8.reduceToNat]
  exact decide_eq_decide.mpr ⟨fun h => h, fun h => h⟩

end Nibble
end TD4
