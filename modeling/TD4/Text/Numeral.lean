/-
Numbers read from digits.

* `digit?` is the value of a digit in a base up to 16, letters in either case;
* `natural?` reads a text that consists of digits only, at least one of them;
* `signless?` also lets one plus sign stand in front;
* `natural?_append_digit` says what one more digit does to the value.
-/

namespace TD4
namespace Text

/-- The value of a digit, if it is one in the base. -/
def digit? (base : Nat) (c : Char) : Option Nat :=
  let n := c.toNat
  let value? :=
    if 48 ≤ n ∧ n ≤ 57 then some (n - 48)
    else if 97 ≤ n ∧ n ≤ 102 then some (n - 87)
    else if 65 ≤ n ∧ n ≤ 70 then some (n - 55)
    else none
  value?.filter fun value => decide (value < base)

/-- The value of the digits read so far, continued by more digits. -/
def continueNatural (base : Nat) (value : Nat) (digits : List Char) : Option Nat :=
  digits.foldlM (fun value c => (digit? base c).map fun d => value * base + d) value

/-- The number that a text of digits stands for. -/
def natural? (base : Nat) (digits : List Char) : Option Nat :=
  if digits.isEmpty then none else continueNatural base 0 digits

/-- The number that a text of digits stands for, where one plus sign may stand
in front. -/
def signless? (base : Nat) : List Char → Option Nat
  | '+' :: digits => natural? base digits
  | digits => natural? base digits

theorem continueNatural_append (base value : Nat) (front back : List Char) :
    continueNatural base value (front ++ back)
      = (continueNatural base value front).bind fun v => continueNatural base v back := by
  unfold continueNatural
  rw [List.foldlM_append]
  rfl

theorem natural?_append_digit {base n d : Nat} {digits : List Char} {c : Char}
    (hn : natural? base digits = some n) (hd : digit? base c = some d) :
    natural? base (digits ++ [c]) = some (n * base + d) := by
  unfold natural? at hn ⊢
  split at hn
  · cases hn
  · rw [if_neg (by simp), continueNatural_append, hn]
    simp [continueNatural, hd]

end Text
end TD4
