/-
How long a carry is seen.

The machine keeps two bits, the carry and its latch; what they mean is a matter
of history.  A call that clocks the latch is a *clocking call*, and the carry
tells whether the last but one of them overflowed, unless the last one went
through the adder, whose carry it then tells.

* `Registers.Tells` is the invariant: the carry without the latch says that the
  last clocking call overflowed, and the latch comes only with the carry;
* `Registers.Tells.clocked`: one clocking call preserves it;
* `carry_told` is the main statement, about every clocking call of a run.

A run is a history of calls and of edits that do not touch the carry or the
latch, from a reset machine; a fresh machine is its own reset.
-/
import TD4.Proofs.Cpu.Step
import Mathlib.Data.List.Induction

namespace TD4

/-- Does an opcode renew the carry?  These are `add a`, `add b` and `out b`. -/
def renewsCarry (opcode : UInt8) : Bool := opcode == 0 || opcode == 5 || opcode == 9

namespace Registers

variable {r : Registers} {opcode imm : UInt8} {op : Operation} {overflowed : Bool}

/-- Does an instruction overflow?  The sum is the true one. -/
def overflows (r : Registers) (opcode imm : UInt8) : Bool :=
  opcode == 0 && decide (16 ≤ r.a.toNat + imm.toNat)
    || (opcode == 5 || opcode == 9) && decide (16 ≤ r.b.toNat + imm.toNat)

/-- The registers after an instruction, whether its opcode is used or not. -/
def clocked (r : Registers) (opcode imm : UInt8) : Registers :=
  match Operation.ofOpcode? opcode with
  | some op => r.clockCarry.perform op imm
  | none => r.clockCarry

/-- An instruction goes through the adder or has nothing to do with it. -/
theorem adder (r : Registers) (imm : UInt8) (h : Operation.ofOpcode? opcode = some op) :
    (∃ x, r.addend? op = some x ∧ (x = r.a ∨ x = r.b) ∧ renewsCarry opcode = true ∧
        r.overflows opcode imm = decide (16 ≤ x.toNat + imm.toNat)) ∨
      (r.addend? op = none ∧ renewsCarry opcode = false ∧ r.overflows opcode imm = false) := by
  rw [← Operation.opcode_of_ofOpcode? h]
  cases op
  case addA => exact Or.inl ⟨r.a, rfl, Or.inl rfl, rfl, by simp [overflows, Operation.opcode]⟩
  case addB => exact Or.inl ⟨r.b, rfl, Or.inr rfl, rfl, by simp [overflows, Operation.opcode]⟩
  case outB => exact Or.inl ⟨r.b, rfl, Or.inr rfl, rfl, by simp [overflows, Operation.opcode]⟩
  all_goals exact Or.inr ⟨rfl, rfl, rfl⟩

theorem adder_unused (r : Registers) (imm : UInt8) (h : Operation.ofOpcode? opcode = none) :
    renewsCarry opcode = false ∧ r.overflows opcode imm = false := by
  have hne : ∀ {code : UInt8}, (Operation.ofOpcode? code).isSome = true → opcode ≠ code := by
    rintro code hsome rfl
    rw [h] at hsome
    cases hsome
  have h0 : opcode ≠ 0 := hne rfl
  have h5 : opcode ≠ 5 := hne rfl
  have h9 : opcode ≠ 9 := hne rfl
  simp [renewsCarry, overflows, h0, h5, h9]

theorem addend?_clockCarry (r : Registers) (op : Operation) :
    r.clockCarry.addend? op = r.addend? op := by
  rw [clockCarry_eq]
  cases op <;> rfl

theorem add_snd_eq {x : UInt8} (hx : x.toNat ≤ 15) (himm : imm.toNat ≤ 15) :
    (Nibble.add x imm).2 = decide (16 ≤ x.toNat + imm.toNat) := by
  rw [Nibble.add_snd, Nat.mod_eq_of_lt (Nat.lt_succ_of_le hx),
    Nat.mod_eq_of_lt (Nat.lt_succ_of_le himm)]

theorem renewsCarry_of_overflows (h : r.overflows opcode imm = true) :
    renewsCarry opcode = true := by
  simp only [overflows, renewsCarry, Bool.or_eq_true, Bool.and_eq_true] at h ⊢
  tauto

/-! ### The invariant -/

/-- The carry and its latch tell whether the last clocking call overflowed. -/
structure Tells (r : Registers) (overflowed : Bool) : Prop where
  /-- A carry that was not clocked yet comes from that call. -/
  carry_not_latch : (r.carry && !r.latch) = overflowed
  /-- The latch is set only while the carry is. -/
  carry_of_latch : r.latch = true → r.carry = true

namespace Tells

theorem zero : Tells Registers.zero false := ⟨rfl, fun h => h⟩

/-- What the next instruction sees is the overflow of the last one. -/
theorem carry_clockCarry (h : r.Tells overflowed) : r.clockCarry.carry = overflowed :=
  (Registers.carry_clockCarry r).trans h.carry_not_latch

theorem latch_clockCarry (h : r.Tells overflowed) : r.clockCarry.latch = overflowed := by
  rw [Registers.latch_clockCarry, ← h.carry_not_latch]
  rcases hcarry : r.carry with _ | _
  · -- without the carry there is no latch
    have hlatch : r.latch = false := by
      rw [Bool.eq_false_iff]
      intro hlatch
      rw [h.carry_of_latch hlatch] at hcarry
      cases hcarry
    rw [hlatch]
    rfl
  · rfl

theorem carry_clocked (h : r.Tells overflowed) (hr : r.Bounded) (himm : imm.toNat ≤ 15) :
    (r.clocked opcode imm).carry
      = (r.overflows opcode imm || !renewsCarry opcode && overflowed) := by
  rw [Registers.clocked]
  split
  case h_1 op hop =>
    rw [carry_perform, addend?_clockCarry]
    rcases adder r imm hop with ⟨x, hx, hregister, hrenews, hoverflows⟩ | ⟨hx, hrenews, hoverflows⟩
    · have hle : x.toNat ≤ 15 := by
        rcases hregister with rfl | rfl
        · exact hr.a
        · exact hr.b
      rw [hx, hrenews, hoverflows]
      simp [add_snd_eq hle himm]
    · rw [hx, hrenews, hoverflows]
      simpa using h.carry_clockCarry
  case h_2 hop =>
    obtain ⟨hrenews, hoverflows⟩ := adder_unused r imm hop
    rw [hrenews, hoverflows]
    simpa using h.carry_clockCarry

theorem latch_clocked (h : r.Tells overflowed) :
    (r.clocked opcode imm).latch = (!renewsCarry opcode && overflowed) := by
  rw [Registers.clocked]
  split
  case h_1 op hop =>
    rw [latch_perform, addend?_clockCarry]
    rcases adder r imm hop with ⟨x, hx, -, hrenews, -⟩ | ⟨hx, hrenews, -⟩
    · rw [hx, hrenews]
      rfl
    · rw [hx, hrenews]
      simpa using h.latch_clockCarry
  case h_2 hop =>
    rw [(adder_unused r imm hop).1]
    simpa using h.latch_clockCarry

/-- A clocking call hands the invariant on. -/
theorem clocked (h : r.Tells overflowed) (hr : r.Bounded) (himm : imm.toNat ≤ 15) :
    (r.clocked opcode imm).Tells (r.overflows opcode imm) := by
  have hcarry : (r.clocked opcode imm).carry = _ := h.carry_clocked hr himm
  have hlatch : (r.clocked opcode imm).latch = _ := h.latch_clocked
  constructor
  · -- after an overflow the latch is open; otherwise carry and latch agree
    rw [hcarry, hlatch]
    rcases hoverflows : r.overflows opcode imm with _ | _
    · simp
    · simp [renewsCarry_of_overflows hoverflows]
  · rw [hcarry, hlatch]
    intro hset
    rw [hset, Bool.or_true]

end Tells

/-- `jnc` jumps unless the last clocking call overflowed. -/
theorem Tells.pc_jnc (h : r.Tells overflowed) (himm : imm.toNat ≤ 15) :
    (r.clocked 14 imm).pc.toNat = if overflowed then (r.pc.toNat + 1) % 16 else imm.toNat := by
  have hjnc : r.clocked 14 imm
      = if r.clockCarry.carry then r.clockCarry.advancePc else r.clockCarry.setPc imm := rfl
  have hpc : r.clockCarry.pc = r.pc := by
    rw [clockCarry_eq]
  rw [hjnc, h.carry_clockCarry]
  split
  · show (Nibble.low (r.clockCarry.pc + 1)).toNat = _
    rw [hpc, Nibble.toNat_low, UInt8.toNat_add]
    show (r.pc.toNat + 1) % 2 ^ 8 % 16 = _
    omega
  · show (Nibble.low imm).toNat = _
    rw [Nibble.toNat_low]
    omega

end Registers

namespace Cpu

variable {cpu : Cpu} {command : Command} {history : List Command}

/-! ### Clocking calls -/

namespace Command

/-- A step, an execution, or an edit that touches neither the carry nor its latch. -/
def ordinary : Command → Bool
  | .step | .execute _ _ | .rom _ => true
  | .run _ | .reset => false
  | .registers edit =>
    match edit with
    | .a _ | .b _ | .input _ | .output _ | .pc _ | .advance => true
    | .carry _ | .freshCarry _ | .clock | .clear => false

/-- Is a command a clocking call: an execution whose operand is a nibble, or a
step that does not halt? -/
def clocks : Command → Cpu → Bool
  | .step, cpu =>
    match cpu.step.1 with
    | .error .halted => false
    | _ => true
  | .execute _ operand, _ => decide (operand.toNat ≤ 15)
  | _, _ => false

/-- The opcode and the immediate of a call. -/
def instruction : Command → Cpu → UInt8 × UInt8
  | .execute opcode operand, _ => (opcode, operand)
  | _, cpu => cpu.fetched

def renews (command : Command) (cpu : Cpu) : Bool := renewsCarry (command.instruction cpu).1

/-- Does a call overflow? -/
def overflows (command : Command) (cpu : Cpu) : Bool :=
  cpu.regs.overflows (command.instruction cpu).1 (command.instruction cpu).2

/-- A clocking call clocks its instruction. -/
theorem regs_of_clocks (h : command.clocks cpu = true) :
    (command.instruction cpu).2.toNat ≤ 15 ∧
      (command.apply cpu).2.regs
        = cpu.regs.clocked (command.instruction cpu).1 (command.instruction cpu).2 := by
  cases command with
  | step =>
    refine ⟨toNat_fetched_snd_le cpu, ?_⟩
    show cpu.step.2.regs = cpu.regs.clocked cpu.fetched.1 cpu.fetched.2
    have hstepped := stepped cpu
    rw [clocks] at h
    generalize cpu.step = outcome at hstepped h
    cases hstepped with
    | halted => cases h
    | unused _ hopcode => simp only [Registers.clocked, hopcode]
    | done _ hopcode => simp only [Registers.clocked, hopcode]
  | execute opcode operand =>
    have hnarrow : operand.toNat ≤ 15 := of_decide_eq_true h
    refine ⟨hnarrow, ?_⟩
    show (cpu.execute opcode operand).2.regs = cpu.regs.clocked opcode operand
    have hexecuted := executed cpu opcode operand
    generalize cpu.execute opcode operand = outcome at hexecuted
    cases hexecuted with
    | refused hwide => exact absurd hnarrow (Nat.not_le.mpr hwide)
    | unused _ hopcode => simp only [Registers.clocked, hopcode]
    | done _ hopcode => simp only [Registers.clocked, hopcode]
  | run limit => cases h
  | reset => cases h
  | registers edit => cases h
  | rom edit => cases h

theorem carry_of_not_clocks (hordinary : command.ordinary = true)
    (h : command.clocks cpu = false) :
    (command.apply cpu).2.regs.carry = cpu.regs.carry ∧
      (command.apply cpu).2.regs.latch = cpu.regs.latch := by
  cases command with
  | step =>
    show cpu.step.2.regs.carry = cpu.regs.carry ∧ cpu.step.2.regs.latch = cpu.regs.latch
    have hstepped := stepped cpu
    rw [clocks] at h
    generalize cpu.step = outcome at hstepped h
    cases hstepped with
    | halted => exact ⟨rfl, rfl⟩
    | unused => cases h
    | done => cases h
  | execute opcode operand =>
    have hwide : ¬ operand.toNat ≤ 15 := of_decide_eq_false h
    show (cpu.execute opcode operand).2.regs.carry = cpu.regs.carry ∧
      (cpu.execute opcode operand).2.regs.latch = cpu.regs.latch
    have hexecuted := executed cpu opcode operand
    generalize cpu.execute opcode operand = outcome at hexecuted
    cases hexecuted with
    | refused => exact ⟨rfl, rfl⟩
    | unused hnarrow => exact absurd hnarrow hwide
    | done hnarrow => exact absurd hnarrow hwide
  | run limit => cases hordinary
  | reset => cases hordinary
  | registers edit =>
    cases edit with
    | a x => exact ⟨rfl, rfl⟩
    | b x => exact ⟨rfl, rfl⟩
    | input x => exact ⟨rfl, rfl⟩
    | output x => exact ⟨rfl, rfl⟩
    | pc x => exact ⟨rfl, rfl⟩
    | advance => exact ⟨rfl, rfl⟩
    | carry c => cases hordinary
    | freshCarry c => cases hordinary
    | clock => cases hordinary
    | clear => cases hordinary
  | rom edit =>
    rw [apply]
    split <;> exact ⟨rfl, rfl⟩

end Command

/-- The clocking calls of a history, each with the machine it was made on. -/
def clockingCalls : Cpu → List Command → List (Cpu × Command)
  | _, [] => []
  | cpu, command :: rest =>
    if command.clocks cpu then (cpu, command) :: clockingCalls (command.apply cpu).2 rest
    else clockingCalls (command.apply cpu).2 rest

/-- Did the clocking call just before a place in the list overflow? -/
def overflowBefore (calls : List (Cpu × Command)) : Nat → Bool
  | 0 => false
  | i + 1 =>
    match calls[i]? with
    | some (before, command) => command.overflows before
    | none => false

theorem after_append (cpu : Cpu) (front back : List Command) :
    cpu.after (front ++ back) = (cpu.after front).after back :=
  List.foldl_append

theorem clockingCalls_append (cpu : Cpu) (front back : List Command) :
    clockingCalls cpu (front ++ back)
      = clockingCalls cpu front ++ clockingCalls (cpu.after front) back := by
  induction front generalizing cpu with
  | nil => rfl
  | cons command rest ih =>
    rw [List.cons_append, clockingCalls, clockingCalls, ih]
    split <;> rfl

theorem overflowBefore_append {calls others : List (Cpu × Command)} {i : Nat}
    (h : i ≤ calls.length) : overflowBefore (calls ++ others) i = overflowBefore calls i := by
  cases i with
  | zero => rfl
  | succ i =>
    rw [overflowBefore, overflowBefore, List.getElem?_append_left (by omega)]

/-- Every clocking call of a history was made after a part of it, which has the
clocking calls before it. -/
theorem exists_of_getElem?_clockingCalls {before : Cpu} {i : Nat}
    (h : (clockingCalls cpu history)[i]? = some (before, command)) :
    ∃ front back, history = front ++ command :: back ∧ before = cpu.after front ∧
      command.clocks before = true ∧ (clockingCalls cpu front).length = i := by
  induction history generalizing cpu i with
  | nil => cases h
  | cons first rest ih =>
    rw [clockingCalls] at h
    split at h
    case isTrue hclocks =>
      -- the first command is the first clocking call
      cases i with
      | zero =>
        cases h
        exact ⟨[], rest, rfl, rfl, hclocks, rfl⟩
      | succ i =>
        obtain ⟨front, back, rfl, hbefore, hcommand, hlength⟩ := ih h
        refine ⟨first :: front, back, rfl, hbefore, hcommand, ?_⟩
        rw [clockingCalls, if_pos hclocks, List.length_cons, hlength]
    case isFalse hclocks =>
      obtain ⟨front, back, rfl, hbefore, hcommand, hlength⟩ := ih h
      refine ⟨first :: front, back, rfl, hbefore, hcommand, ?_⟩
      rw [clockingCalls, if_neg hclocks, hlength]

/-! ### Whole runs -/

/-- The invariant holds along a run.  The induction is on the end of the
history, since the last clocking call is the one that counts. -/
theorem tells_after (cpu : Cpu) (h : ∀ command ∈ history, command.ordinary = true) :
    (cpu.reset.after history).regs.Bounded ∧
      (cpu.reset.after history).regs.Tells
        (overflowBefore (clockingCalls cpu.reset history)
          (clockingCalls cpu.reset history).length) := by
  induction history using List.reverseRecOn with
  | nil => exact ⟨Registers.Bounded.zero, Registers.Tells.zero⟩
  | append_singleton front command ih =>
    have hfront : ∀ other ∈ front, other.ordinary = true := fun other hother =>
      h other (List.mem_append_left _ hother)
    obtain ⟨hbounded, htells⟩ := ih hfront
    rw [after_append, clockingCalls_append]
    refine ⟨bounded_apply hbounded command, ?_⟩
    show (command.apply (cpu.reset.after front)).2.regs.Tells _
    rcases hclocks : command.clocks (cpu.reset.after front) with _ | _
    · -- the list of clocking calls stays, and so do the carry and the latch
      have hordinary : command.ordinary = true := h command (by simp)
      obtain ⟨hcarry, hlatch⟩ := Command.carry_of_not_clocks hordinary hclocks
      have hnone : clockingCalls (cpu.reset.after front) [command] = [] := by
        rw [clockingCalls, if_neg (by simp [hclocks])]
        rfl
      rw [hnone, List.append_nil]
      refine ⟨?_, ?_⟩
      · rw [hcarry, hlatch, htells.carry_not_latch]
      · rw [hcarry, hlatch]
        exact htells.carry_of_latch
    · -- the command is the last clocking call now
      obtain ⟨himm, hregs⟩ := Command.regs_of_clocks hclocks
      have hone : clockingCalls (cpu.reset.after front) [command]
          = [(cpu.reset.after front, command)] := by
        rw [clockingCalls, if_pos hclocks]
        rfl
      rw [hone, hregs, List.length_append, List.length_singleton, overflowBefore,
        List.getElem?_concat_length]
      exact htells.clocked hbounded himm

/-- What the carry tells along a run. -/
structure CarryTold (start : Cpu) (history : List Command) : Prop where
  /-- The carry after a clocking call is up if that call overflowed, or if it did
  not renew the carry and the clocking call just before it overflowed. -/
  carry : ∀ i before command, (clockingCalls start history)[i]? = some (before, command) →
    ((command.apply before).2.regs.carry = true ↔
      command.overflows before = true ∨
        command.renews before = false ∧
          overflowBefore (clockingCalls start history) i = true)
  /-- `jnc` jumps unless the clocking call just before it overflowed. -/
  jump : ∀ i before command, (clockingCalls start history)[i]? = some (before, command) →
    (command.instruction before).1 = Operation.jnc.opcode →
      (command.apply before).2.regs.pc.toNat
        = if overflowBefore (clockingCalls start history) i then (before.regs.pc.toNat + 1) % 16
          else (command.instruction before).2.toNat
  /-- Calls that do not clock, and edits, change neither the carry nor the latch. -/
  idle : ∀ front command back, history = front ++ command :: back →
    command.clocks (start.after front) = false →
      (start.after (front ++ [command])).regs.carry = (start.after front).regs.carry ∧
        (start.after (front ++ [command])).regs.latch = (start.after front).regs.latch
  /-- The latch is set only while the carry is. -/
  latch : ∀ front back, history = front ++ back →
    (start.after front).regs.latch = true → (start.after front).regs.carry = true

/-- **The carry is seen by the next clocking call and by no later one.** -/
theorem carry_told (cpu : Cpu) (h : ∀ command ∈ history, command.ordinary = true) :
    CarryTold cpu.reset history := by
  have hpart : ∀ {front back : List Command}, history = front ++ back →
      ∀ command ∈ front, command.ordinary = true := by
    rintro front back rfl command hcommand
    exact h command (List.mem_append_left back hcommand)
  -- a clocking call with the invariant of the registers it meets
  have hcall : ∀ {i : Nat} {before : Cpu} {command : Command},
      (clockingCalls cpu.reset history)[i]? = some (before, command) →
        command.clocks before = true ∧ before.regs.Bounded ∧
          before.regs.Tells (overflowBefore (clockingCalls cpu.reset history) i) := by
    intro i before command hget
    obtain ⟨front, back, hsplit, rfl, hclocks, rfl⟩ := exists_of_getElem?_clockingCalls hget
    obtain ⟨hbounded, htells⟩ := tells_after cpu (hpart hsplit)
    refine ⟨hclocks, hbounded, ?_⟩
    rw [hsplit, clockingCalls_append, overflowBefore_append (Nat.le_refl _)]
    exact htells
  constructor
  · intro i before command hget
    obtain ⟨hclocks, hbounded, htells⟩ := hcall hget
    obtain ⟨himm, hregs⟩ := Command.regs_of_clocks hclocks
    rw [hregs, htells.carry_clocked hbounded himm, Command.overflows, Command.renews]
    simp
  · intro i before command hget hjnc
    obtain ⟨hclocks, -, htells⟩ := hcall hget
    obtain ⟨himm, hregs⟩ := Command.regs_of_clocks hclocks
    rw [hregs, hjnc]
    exact htells.pc_jnc himm
  · rintro front command back hsplit hclocks
    have hordinary : command.ordinary = true := h command (by simp [hsplit])
    rw [after_append]
    exact Command.carry_of_not_clocks hordinary hclocks
  · intro front back hsplit
    exact (tells_after cpu (hpart hsplit)).2.carry_of_latch

/-- An addition that overflows, one wide operand that is refused, and two jumps:
the first meets the carry, the second does not. -/
theorem carry_told_jumps :
    (∀ command ∈ ([.execute 3 15, .registers (.input 5), .execute 0 1, .execute 14 16,
        .execute 14 9, .execute 14 9] : List Command), command.ordinary = true) ∧
      ((clockingCalls fresh.reset [.execute 3 15, .registers (.input 5), .execute 0 1,
        .execute 14 16, .execute 14 9, .execute 14 9]).map fun (before, _) => before.regs.pc)
          = [0, 1, 2, 3] ∧
      CarryTold fresh.reset [.execute 3 15, .registers (.input 5), .execute 0 1,
        .execute 14 16, .execute 14 9, .execute 14 9] :=
  ⟨by decide, by decide, carry_told fresh (by decide)⟩

end Cpu
end TD4
