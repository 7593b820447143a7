/-
How long a raised carry lasts.

A carry that is raised while its latch is clear is up for two clocks of the latch, if
nothing writes it meanwhile: it is seen after the first and gone after the second.
The adder clears the latch when it writes the carry.  A host that sets the flag by
hand does not, so what it finds in the latch counts:

* `Registers.clocksLeft` is the number of clocks that a carry has left, and
  `Registers.clocksLeft_iterate` says that each clock takes one;
* `Command.ticks?` counts the clocks in a command that does not write the carry, and
  `sameFlags_after` says that nothing but these clocks matters to the two bits;
* a latch is *stale* while the carry is down; `stale_apply_iff` tells the only way into
  that state, a host that takes down a carry after its first clock.

`raised_carry_lasts` puts this together for every history.  Only a carry that is set
by hand over a stale latch is cut short (`stale_latch_cuts_carry`).
-/
import TD4.Proofs.Cpu.Carry

namespace TD4

namespace Registers

variable {r s : Registers} {opcode imm : UInt8}

/-! ### The two bits -/

/-- The carry and its latch are the same. -/
def SameFlags (r s : Registers) : Prop := r.carry = s.carry ∧ r.latch = s.latch

/-- The latch is set, but no carry is up. -/
def Stale (r : Registers) : Prop := r.carry = false ∧ r.latch = true

/-- The number of clocks until the carry is down, if nothing writes it. -/
def clocksLeft (r : Registers) : Nat :=
  if r.carry then if r.latch then 1 else 2 else 0

theorem carry_iff_clocksLeft : r.carry = true ↔ 0 < r.clocksLeft := by
  rw [clocksLeft]
  cases r.carry <;> cases r.latch <;> decide

theorem SameFlags.trans {t : Registers} (h : r.SameFlags s) (h' : s.SameFlags t) : r.SameFlags t :=
  ⟨h.1.trans h'.1, h.2.trans h'.2⟩

theorem SameFlags.clocksLeft (h : r.SameFlags s) : r.clocksLeft = s.clocksLeft := by
  rw [Registers.clocksLeft, Registers.clocksLeft, h.1, h.2]

theorem SameFlags.stale_iff (h : r.SameFlags s) : r.Stale ↔ s.Stale := by
  rw [Stale, Stale, h.1, h.2]

theorem SameFlags.clockCarry (h : r.SameFlags s) : r.clockCarry.SameFlags s.clockCarry := by
  rw [SameFlags, carry_clockCarry, carry_clockCarry, latch_clockCarry, latch_clockCarry, h.1, h.2]
  exact ⟨rfl, rfl⟩

theorem SameFlags.iterate (h : r.SameFlags s) (k : Nat) :
    (Registers.clockCarry^[k] r).SameFlags (Registers.clockCarry^[k] s) := by
  induction k generalizing r s with
  | zero => exact h
  | succ k ih => exact ih h.clockCarry

theorem clocksLeft_clockCarry (r : Registers) : r.clockCarry.clocksLeft = r.clocksLeft - 1 := by
  rw [clocksLeft, clocksLeft, carry_clockCarry, latch_clockCarry]
  cases r.carry <;> cases r.latch <;> rfl

theorem clocksLeft_iterate (r : Registers) (k : Nat) :
    (clockCarry^[k] r).clocksLeft = r.clocksLeft - k := by
  induction k generalizing r with
  | zero => rfl
  | succ k ih => rw [Function.iterate_succ_apply, ih, clocksLeft_clockCarry, Nat.sub_sub, Nat.add_comm]

/-- The clock has no way into a stale latch and none out of it. -/
theorem stale_clockCarry_iff : r.clockCarry.Stale ↔ r.Stale := by
  rw [Stale, Stale, carry_clockCarry, latch_clockCarry]
  cases r.carry <;> cases r.latch <;> decide

theorem stale_iterate_iff {k : Nat} : (clockCarry^[k] r).Stale ↔ r.Stale := by
  induction k generalizing r with
  | zero => exact Iff.rfl
  | succ k ih => rw [Function.iterate_succ_apply, ih, stale_clockCarry_iff]

/-! ### Instructions -/

/-- An instruction that does not renew the carry only clocks it. -/
theorem sameFlags_clocked (h : renewsCarry opcode = false) :
    (r.clocked opcode imm).SameFlags r.clockCarry := by
  rw [clocked]
  split
  case h_1 op hop =>
    rcases adder r imm hop with ⟨_, _, _, hrenews, _⟩ | ⟨hnone, _, _⟩
    · rw [h] at hrenews
      cases hrenews
    · rw [SameFlags, carry_perform, latch_perform, addend?_clockCarry, hnone]
      exact ⟨rfl, rfl⟩
  case h_2 => exact ⟨rfl, rfl⟩

/-- An instruction that renews the carry opens its latch. -/
theorem latch_clocked_of_renews (h : renewsCarry opcode = true) :
    (r.clocked opcode imm).latch = false := by
  rw [clocked]
  split
  case h_1 op hop =>
    rcases adder r imm hop with ⟨x, hx, -⟩ | ⟨-, hnot, -⟩
    · rw [latch_perform, addend?_clockCarry, hx]
    · rw [h] at hnot
      cases hnot
  case h_2 hop =>
    rw [(adder_unused r imm hop).1] at h
    cases h

end Registers

namespace Cpu

variable {cpu : Cpu} {command : Command} {history : List Command} {k : Nat}

/-! ### Counting clocks -/

namespace Command

/-- The clocks of the latch in a step or an execution, unless it renews the carry. -/
def callTicks? (command : Command) (cpu : Cpu) : Option Nat :=
  if command.clocks cpu then if command.renews cpu then none else some 1 else some 0

/-- The clocks of the latch in a number of steps, unless one of them renews the carry. -/
def stepsTicks? : Nat → Cpu → Option Nat
  | 0, _ => some 0
  | n + 1, cpu =>
    match callTicks? .step cpu, cpu.step with
    | none, _ => none
    | some k, (.ok (), next) => (stepsTicks? n next).map (k + ·)
    | some k, (.error _, _) => some k

/-- The clocks of the latch in a command, unless it writes the carry. -/
def ticks? : Command → Cpu → Option Nat
  | .step, cpu => callTicks? .step cpu
  | .execute opcode operand, cpu => callTicks? (.execute opcode operand) cpu
  | .run limit, cpu => stepsTicks? limit.toNat cpu
  | .reset, _ => none
  | .registers edit, _ =>
    match edit with
    | .carry _ | .freshCarry _ | .clear => none
    | .clock => some 1
    | .a _ | .b _ | .input _ | .output _ | .pc _ | .advance => some 0
  | .rom _, _ => some 0

end Command

/-- The clocks of the latch in a history, unless it writes the carry. -/
def ticks? : Cpu → List Command → Option Nat
  | _, [] => some 0
  | cpu, command :: rest =>
    match command.ticks? cpu with
    | none => none
    | some k => ((command.apply cpu).2.ticks? rest).map (k + ·)

namespace Command

theorem sameFlags_of_callTicks (command : Command) (hordinary : command.ordinary = true)
    (h : command.callTicks? cpu = some k) :
    (command.apply cpu).2.regs.SameFlags (Registers.clockCarry^[k] cpu.regs) := by
  rw [callTicks?] at h
  split at h
  case isTrue hclocks =>
    split at h
    case isTrue => cases h
    case isFalse hrenews =>
      cases h
      rw [(regs_of_clocks hclocks).2]
      exact Registers.sameFlags_clocked (Bool.eq_false_iff.mpr hrenews)
  case isFalse hclocks =>
    cases h
    exact carry_of_not_clocks hordinary (Bool.eq_false_iff.mpr hclocks)

/-- A call that writes the carry opens the latch. -/
theorem not_stale_of_callTicks (command : Command) (h : command.callTicks? cpu = none) :
    ¬ (command.apply cpu).2.regs.Stale := by
  rw [callTicks?] at h
  split at h
  case isTrue hclocks =>
    split at h
    case isTrue hrenews =>
      rintro ⟨-, hlatch⟩
      rw [(regs_of_clocks hclocks).2, Registers.latch_clocked_of_renews hrenews] at hlatch
      cases hlatch
    case isFalse => cases h
  case isFalse => cases h

theorem sameFlags_of_stepsTicks {n : Nat} (h : stepsTicks? n cpu = some k) :
    (cpu.steps n).2.regs.SameFlags (Registers.clockCarry^[k] cpu.regs) := by
  induction n generalizing cpu k with
  | zero =>
    cases h
    exact ⟨rfl, rfl⟩
  | succ n ih =>
    rw [stepsTicks?] at h
    rw [steps]
    rcases hcall : callTicks? .step cpu with _ | i
    · simp [hcall] at h
    · have hfirst : cpu.step.2.regs.SameFlags (Registers.clockCarry^[i] cpu.regs) :=
        sameFlags_of_callTicks .step rfl hcall
      rcases hstep : cpu.step with ⟨_ | _, next⟩
      · simp only [hcall, hstep] at h hfirst ⊢
        cases h
        exact hfirst
      · simp only [hcall, hstep] at h hfirst ⊢
        obtain ⟨m, hm, rfl⟩ := Option.map_eq_some_iff.mp h
        rw [Nat.add_comm, Function.iterate_add_apply]
        exact (ih hm).trans (hfirst.iterate m)

/-- A command that does not write the carry does no more to the two bits than clock
them. -/
theorem sameFlags_of_ticks (h : command.ticks? cpu = some k) :
    (command.apply cpu).2.regs.SameFlags (Registers.clockCarry^[k] cpu.regs) := by
  cases command with
  | step => exact sameFlags_of_callTicks .step rfl h
  | execute opcode operand => exact sameFlags_of_callTicks (.execute opcode operand) rfl h
  | run limit =>
    show (cpu.runLimited limit).2.regs.SameFlags _
    rw [snd_runLimited]
    exact sameFlags_of_stepsTicks h
  | reset => cases h
  | registers edit =>
    cases edit <;> cases h <;> exact ⟨rfl, rfl⟩
  | rom edit =>
    cases h
    rw [apply]
    split <;> exact ⟨rfl, rfl⟩

end Command

theorem sameFlags_after (h : cpu.ticks? history = some k) :
    (cpu.after history).regs.SameFlags (Registers.clockCarry^[k] cpu.regs) := by
  induction history generalizing cpu k with
  | nil =>
    cases h
    exact ⟨rfl, rfl⟩
  | cons command rest ih =>
    rw [ticks?] at h
    split at h
    case h_1 => cases h
    case h_2 i hi =>
      obtain ⟨m, hm, rfl⟩ := Option.map_eq_some_iff.mp h
      rw [Nat.add_comm, Function.iterate_add_apply]
      exact (ih hm).trans ((Command.sameFlags_of_ticks hi).iterate m)

/-! ### Raising the carry -/

/-- A command raises the carry for a number of clocks. -/
inductive Raises (cpu : Cpu) : Command → Nat → Prop
  /-- A host hands over a carry as the adder does. -/
  | fresh : Raises cpu (.registers (.freshCarry true)) 2
  /-- An instruction goes through the adder and overflows. -/
  | instruction {command : Command} (hclocks : command.clocks cpu = true)
      (hrenews : command.renews cpu = true) (hup : (command.apply cpu).2.regs.carry = true) :
      Raises cpu command 2
  /-- A host sets the flag, and the latch is clear like the flag was. -/
  | byHand (hcarry : cpu.regs.carry = false) (hlatch : cpu.regs.latch = false) :
      Raises cpu (.registers (.carry true)) 2
  | overStale (hstale : cpu.regs.Stale) : Raises cpu (.registers (.carry true)) 1

theorem Raises.clocksLeft {span : Nat} (h : Raises cpu command span) :
    (command.apply cpu).2.regs.clocksLeft = span := by
  cases h with
  | fresh => rfl
  | instruction hclocks hrenews hup =>
    have hlatch : (command.apply cpu).2.regs.latch = false := by
      rw [(Command.regs_of_clocks hclocks).2]
      exact Registers.latch_clocked_of_renews hrenews
    rw [Registers.clocksLeft, if_pos hup, hlatch]
    rfl
  | byHand _ hlatch =>
    show (if cpu.regs.latch then 1 else 2) = 2
    rw [hlatch]
    rfl
  | overStale hstale =>
    show (if cpu.regs.latch then 1 else 2) = 1
    rw [hstale.2]
    rfl

/-! ### The stale latch -/

namespace Command

/-- A command leaves the carry down, if it is down: it does not write the carry, or it
takes it down by hand. -/
def leavesDown (command : Command) (cpu : Cpu) : Prop :=
  (command.ticks? cpu).isSome = true ∨ command = .registers (.carry false)

theorem not_stale_of_stepsTicks {n : Nat} (h : stepsTicks? n cpu = none) :
    ¬ (cpu.steps n).2.regs.Stale := by
  have hkeep : ∀ cpu : Cpu, ¬ cpu.regs.Stale → ¬ cpu.step.2.regs.Stale := by
    intro cpu hnot
    rcases hcall : callTicks? .step cpu with _ | i
    · exact not_stale_of_callTicks .step hcall
    · have hsame := sameFlags_of_callTicks .step rfl hcall
      rw [show cpu.step.2.regs.Stale ↔ _ from hsame.stale_iff, Registers.stale_iterate_iff]
      exact hnot
  induction n generalizing cpu with
  | zero => cases h
  | succ n ih =>
    rw [stepsTicks?] at h
    rcases hcall : callTicks? .step cpu with _ | i
    · -- the first step writes the carry, and no later one makes the latch stale again
      have hfirst : ¬ cpu.step.2.regs.Stale := not_stale_of_callTicks .step hcall
      rw [steps]
      rcases hstep : cpu.step with ⟨_ | _, next⟩
      · rwa [hstep] at hfirst
      · rw [hstep] at hfirst
        exact steps_induction (P := fun cpu => ¬ cpu.regs.Stale) hkeep hfirst n
    · rw [steps]
      rcases hstep : cpu.step with ⟨_ | _, next⟩
      · simp [hcall, hstep] at h
      · simp only [hcall, hstep, Option.map_eq_none_iff] at h
        exact ih h

/-- A command that writes the carry, other than to take it down by hand, leaves no stale
latch. -/
theorem not_stale_of_ticks (h : command.ticks? cpu = none) (hne : command ≠ .registers (.carry false)) :
    ¬ (command.apply cpu).2.regs.Stale := by
  cases command with
  | step => exact not_stale_of_callTicks .step h
  | execute opcode operand => exact not_stale_of_callTicks (.execute opcode operand) h
  | run limit =>
    show ¬ (cpu.runLimited limit).2.regs.Stale
    rw [snd_runLimited]
    exact not_stale_of_stepsTicks h
  | reset => exact fun hstale => Bool.false_ne_true hstale.2
  | registers edit =>
    cases edit with
    | carry c =>
      cases c with
      | true => exact fun hstale => Bool.false_ne_true hstale.1.symm
      | false => exact absurd rfl hne
    | freshCarry c => exact fun hstale => Bool.false_ne_true hstale.2
    | clear => exact fun hstale => Bool.false_ne_true hstale.2
    | _ => cases h
  | rom edit => cases h

end Command

/-- How a latch comes to be stale: it was so before, or a host takes down a carry that
has been clocked. -/
theorem stale_apply_iff : (command.apply cpu).2.regs.Stale ↔
    cpu.regs.Stale ∧ command.leavesDown cpu ∨
      command = .registers (.carry false) ∧ cpu.regs.carry = true ∧ cpu.regs.latch = true := by
  by_cases hhand : command = .registers (.carry false)
  · -- by hand the flag is written and the latch left alone
    subst hhand
    show false = false ∧ cpu.regs.latch = true ↔ _
    rcases hcarry : cpu.regs.carry with _ | _ <;> simp [Registers.Stale, Command.leavesDown, hcarry]
  · rcases hticks : command.ticks? cpu with _ | k
    · simp [Command.not_stale_of_ticks hticks hhand, Command.leavesDown, hticks, hhand]
    · rw [(Command.sameFlags_of_ticks hticks).stale_iff, Registers.stale_iterate_iff]
      simp [Command.leavesDown, hticks, hhand]

/-- All commands of a history leave the carry down. -/
def StaysDown : Cpu → List Command → Prop
  | _, [] => True
  | cpu, command :: rest => command.leavesDown cpu ∧ (command.apply cpu).2.StaysDown rest

theorem staysDown_concat : cpu.StaysDown (history ++ [command]) ↔
    cpu.StaysDown history ∧ command.leavesDown (cpu.after history) := by
  induction history generalizing cpu with
  | nil => exact ⟨fun h => ⟨trivial, h.1⟩, fun h => ⟨h.2, trivial⟩⟩
  | cons first rest ih => rw [List.cons_append, StaysDown, StaysDown, ih, and_assoc]; rfl

theorem stale_after_of_staysDown (hstale : cpu.regs.Stale) (h : cpu.StaysDown history) :
    (cpu.after history).regs.Stale := by
  induction history generalizing cpu with
  | nil => exact hstale
  | cons command rest ih => exact ih (stale_apply_iff.mpr (Or.inl ⟨hstale, h.1⟩)) h.2

/-- A latch is stale after a history if a host has taken down a carry after its first
clock, and nothing but such edits wrote the carry since.  The induction is on the end
of the history, where the edit may be. -/
theorem stale_after_iff (hstart : ¬ cpu.regs.Stale) : (cpu.after history).regs.Stale ↔
    ∃ earlier later, history = earlier ++ .registers (.carry false) :: later ∧
      (cpu.after earlier).regs.carry = true ∧ (cpu.after earlier).regs.latch = true ∧
      (cpu.after (earlier ++ [.registers (.carry false)])).StaysDown later := by
  constructor
  · intro h
    induction history using List.reverseRecOn with
    | nil => exact absurd h hstart
    | append_singleton front command ih =>
      rw [after_append] at h
      rcases stale_apply_iff.mp h with ⟨hstale, hleaves⟩ | ⟨rfl, hcarry, hlatch⟩
      · obtain ⟨earlier, later, rfl, hcarry, hlatch, hdown⟩ := ih hstale
        refine ⟨earlier, later ++ [command], by simp, hcarry, hlatch, ?_⟩
        refine staysDown_concat.mpr ⟨hdown, ?_⟩
        rw [← after_append]
        simpa using hleaves
      · exact ⟨front, [], rfl, hcarry, hlatch, trivial⟩
  · rintro ⟨earlier, later, rfl, hcarry, hlatch, hdown⟩
    have hstale : (cpu.after (earlier ++ [.registers (.carry false)])).regs.Stale := by
      rw [after_append]
      exact stale_apply_iff.mpr (Or.inr ⟨rfl, hcarry, hlatch⟩)
    have hafter := stale_after_of_staysDown hstale hdown
    rwa [← after_append, List.append_assoc] at hafter

/-! ### All histories -/

/-- How long carries last along the histories of a machine. -/
structure CarryLasts (start : Cpu) : Prop where
  /-- A carry that is raised for a number of clocks is seen until so many have passed,
  if nothing writes the carry meanwhile. -/
  seen : ∀ front command span back k, Raises (start.after front) command span →
    (start.after (front ++ [command])).ticks? back = some k →
      ((start.after (front ++ command :: back)).regs.carry = true ↔ k < span)
  /-- After a reset, the only latches that cut a carry short. -/
  stale : ∀ history, (start.reset.after history).regs.Stale ↔
    ∃ earlier later, history = earlier ++ .registers (.carry false) :: later ∧
      (start.reset.after earlier).regs.carry = true ∧
      (start.reset.after earlier).regs.latch = true ∧
      (start.reset.after (earlier ++ [.registers (.carry false)])).StaysDown later

/-- **A raised carry lasts two clocks.**  Whatever was done to a machine, a carry that
the adder raises, or a host where the latch is clear, is seen after the next clock and
not after the one that follows.  Set by hand over a stale latch it is gone after one
clock.  After a reset, a latch is stale only if a host took down a carry that had been
clocked, and since then nothing but such edits wrote the carry. -/
theorem raised_carry_lasts (cpu : Cpu) : CarryLasts cpu := by
  constructor
  · intro front command span back k hraises hticks
    have hsplit : cpu.after (front ++ command :: back)
        = (cpu.after (front ++ [command])).after back := by
      rw [← after_append, List.append_assoc]
      rfl
    have hspan : (cpu.after (front ++ [command])).regs.clocksLeft = span := by
      rw [after_append]
      exact hraises.clocksLeft
    rw [hsplit, Registers.carry_iff_clocksLeft, (sameFlags_after hticks).clocksLeft,
      Registers.clocksLeft_iterate, hspan, Nat.sub_pos_iff_lt]
  · intro history
    exact stale_after_iff fun hstale => Bool.false_ne_true hstale.2

/-- An addition that overflows over a stale latch: the next instruction sees the carry,
the one after it does not. -/
theorem raised_carry_lasts_addition :
    (fresh.after [.registers (.freshCarry true), .registers .clock, .registers (.carry false),
      .execute 3 15]).regs.Stale ∧
    (fresh.after ([.registers (.freshCarry true), .registers .clock, .registers (.carry false),
      .execute 3 15] ++ .execute 0 1 :: [.registers (.a 4), .execute 11 7])).regs.carry = true ∧
    ¬ (fresh.after ([.registers (.freshCarry true), .registers .clock, .registers (.carry false),
      .execute 3 15] ++ .execute 0 1 :: [.execute 11 7, .execute 8 0])).regs.carry = true := by
  have hraises : Raises (fresh.after [.registers (.freshCarry true), .registers .clock,
      .registers (.carry false), .execute 3 15]) (.execute 0 1) 2 :=
    .instruction (by decide) (by decide) (by decide)
  have hseen := fun back k => (raised_carry_lasts fresh).seen _ _ _ back k hraises
  exact ⟨⟨by decide, by decide⟩, (hseen _ 1 (by decide)).mpr (by decide),
    fun hup => absurd ((hseen _ 2 (by decide)).mp hup) (by decide)⟩

/-- A carry that is set by hand over a stale latch is gone after its first clock. -/
theorem stale_latch_cuts_carry :
    (fresh.after [.registers (.carry true), .registers .clock,
      .registers (.carry false)]).regs.carry = false ∧
    (fresh.after [.registers (.carry true), .registers .clock, .registers (.carry false),
      .registers (.carry true)]).regs.carry = true ∧
    (fresh.after [.registers (.carry true), .registers .clock, .registers (.carry false),
      .registers (.carry true), .registers .clock]).regs.carry = false := by
  decide

end Cpu
end TD4
