/-
Programs that go on for ever.

The steps to come depend on the ROM, the low nibbles of two registers and of the
input port, the program counter and two flags.  `Alike` says that two machines
agree in these, and then all their steps agree (`Alike.steps`).

A program that takes as many steps as there are such states, without failing,
has been in the same state twice, so it goes round for ever
(`steps_ok_of_card`).  After its first step a machine is in one of
`16 * 16 * 16 * 4` states (`steps_ok_of_horizon`).
-/
import TD4.Proofs.Cpu.Steps
import Mathlib.Data.Fintype.Pigeonhole
import Mathlib.Data.Fintype.Prod

namespace TD4

/-- The adder only looks at low nibbles. -/
theorem Nibble.add_congr {x y : UInt8} (h : Nibble.low x = Nibble.low y) (imm : UInt8) :
    Nibble.add x imm = Nibble.add y imm := by
  rw [Nibble.add, Nibble.add, h]

/-- The low nibble of a cell, as one of sixteen values. -/
def Nibble.index (x : UInt8) : Fin 16 :=
  ⟨(Nibble.low x).toNat, Nibble.toNat_low_lt x⟩

theorem Nibble.low_eq_of_index_eq {x y : UInt8} (h : Nibble.index x = Nibble.index y) :
    Nibble.low x = Nibble.low y :=
  UInt8.toNat_inj.mp (Fin.mk.inj h)

namespace Registers

/-- Two register files agree in what the steps to come depend on. -/
structure Alike (r s : Registers) : Prop where
  a : Nibble.low r.a = Nibble.low s.a
  b : Nibble.low r.b = Nibble.low s.b
  input : Nibble.low r.input = Nibble.low s.input
  carry : r.carry = s.carry
  latch : r.latch = s.latch
  pc : r.pc = s.pc

namespace Alike

variable {r s : Registers} {x y : UInt8}

theorem setA (h : r.Alike s) (hx : Nibble.low x = Nibble.low y) : (r.setA x).Alike (s.setA y) :=
  { h with a := congrArg Nibble.low hx }

theorem setB (h : r.Alike s) (hx : Nibble.low x = Nibble.low y) : (r.setB x).Alike (s.setB y) :=
  { h with b := congrArg Nibble.low hx }

theorem setOutput (h : r.Alike s) (x y : UInt8) : (r.setOutput x).Alike (s.setOutput y) :=
  { h with }

theorem setPc (h : r.Alike s) (x : UInt8) : (r.setPc x).Alike (s.setPc x) :=
  { h with pc := rfl }

theorem advancePc (h : r.Alike s) : r.advancePc.Alike s.advancePc :=
  { h with pc := congrArg (fun pc => Nibble.low (pc + 1)) h.pc }

theorem captureCarry (h : r.Alike s) (c : Bool) : (r.captureCarry c).Alike (s.captureCarry c) :=
  { h with carry := rfl, latch := rfl }

theorem clockCarry (h : r.Alike s) : r.clockCarry.Alike s.clockCarry := by
  have hcarry : r.clockCarry.carry = s.clockCarry.carry := by
    rw [carry_clockCarry, carry_clockCarry, h.carry, h.latch]
  have hlatch : r.clockCarry.latch = s.clockCarry.latch := by
    rw [latch_clockCarry, latch_clockCarry, h.carry, h.latch]
  rw [clockCarry_eq r, clockCarry_eq s]
  exact { h with carry := hcarry, latch := hlatch }

theorem perform (h : r.Alike s) (op : Operation) (imm : UInt8) :
    (r.perform op imm).Alike (s.perform op imm) := by
  have ha := Nibble.add_congr h.a imm
  have hb := Nibble.add_congr h.b imm
  cases op with
  | addA =>
    rw [Registers.perform, Registers.perform, ha]
    exact ((h.setA rfl).captureCarry _).advancePc
  | movAB => exact (h.setA h.b).advancePc
  | inA => exact (h.setA h.input).advancePc
  | movA => exact (h.setA rfl).advancePc
  | movBA => exact (h.setB h.a).advancePc
  | addB =>
    rw [Registers.perform, Registers.perform, hb]
    exact ((h.setB rfl).captureCarry _).advancePc
  | inB => exact (h.setB h.input).advancePc
  | movB => exact (h.setB rfl).advancePc
  | outB =>
    rw [Registers.perform, Registers.perform, hb]
    exact ((h.setOutput _ _).captureCarry _).advancePc
  | out => exact (h.setOutput _ _).advancePc
  | jnc =>
    rw [Registers.perform, Registers.perform, h.carry]
    split
    · exact h.advancePc
    · exact h.setPc imm
  | jmp => exact h.setPc imm

end Alike

end Registers

namespace Cpu

variable {x y cpu next : Cpu}

structure Alike (x y : Cpu) : Prop where
  registers : x.regs.Alike y.regs
  rom : x.rom = y.rom

theorem Alike.fetched (h : x.Alike y) : x.fetched = y.fetched := by
  rw [Cpu.fetched, Cpu.fetched, h.rom, h.registers.pc]

theorem Alike.atSelfJump (h : x.Alike y) : x.atSelfJump = y.atSelfJump := by
  rw [Cpu.atSelfJump, Cpu.atSelfJump, h.rom, h.registers.pc]

/-- Machines that are alike take the same step and stay alike. -/
theorem Alike.step (h : x.Alike y) : x.step.1 = y.step.1 ∧ x.step.2.Alike y.step.2 := by
  have hat := h.atSelfJump
  have hfetched := h.fetched
  have hclock := h.registers.clockCarry
  have hstepped := stepped x
  generalize x.step = outcome at hstepped ⊢
  cases hstepped with
  | halted hself =>
    rw [step_of_selfJump (hat.symm.trans hself)]
    exact ⟨rfl, h.registers, h.rom⟩
  | unused hself hopcode =>
    rw [step_of_unused (hat.symm.trans hself) (hfetched ▸ hopcode), hfetched]
    exact ⟨rfl, hclock, h.rom⟩
  | @done op hself hopcode =>
    rw [step_of_operation (hat.symm.trans hself) (hfetched ▸ hopcode), hfetched]
    exact ⟨rfl, hclock.perform op _, h.rom⟩

theorem Alike.steps (h : x.Alike y) (n : Nat) :
    (x.steps n).1 = (y.steps n).1 ∧ (x.steps n).2.Alike (y.steps n).2 := by
  induction n generalizing x y with
  | zero => exact ⟨rfl, h⟩
  | succ n ih =>
    obtain ⟨hresult, hnext⟩ := h.step
    rcases hx : x.step with ⟨_ | _, x'⟩
    · rcases hy : y.step with ⟨_ | _, y'⟩
      · rw [hx, hy] at hresult hnext
        rw [steps_of_step_fault hx, steps_of_step_fault hy]
        exact ⟨hresult, hnext⟩
      · rw [hx, hy] at hresult
        cases hresult
    · rcases hy : y.step with ⟨_ | _, y'⟩
      · rw [hx, hy] at hresult
        cases hresult
      · rw [hx, hy] at hnext
        rw [Cpu.steps, Cpu.steps, hx, hy]
        exact ih hnext

/-! ### Coming back to a state -/

/-- What tells machines with the same ROM and input apart, as far as the steps to
come are concerned. -/
def core (cpu : Cpu) : Fin 16 × Fin 16 × Fin 16 × Bool × Bool :=
  (Nibble.index cpu.regs.a, Nibble.index cpu.regs.b, Nibble.index cpu.regs.pc,
    cpu.regs.carry, cpu.regs.latch)

theorem alike_of_core_eq (hrom : x.rom = y.rom) (hinput : x.regs.input = y.regs.input)
    (hx : x.regs.pc.toNat < 16) (hy : y.regs.pc.toNat < 16) (h : x.core = y.core) : x.Alike y := by
  simp only [core, Prod.mk.injEq] at h
  obtain ⟨ha, hb, hpc, hcarry, hlatch⟩ := h
  have hlow := Nibble.low_eq_of_index_eq hpc
  rw [Nibble.low_eq_self hx, Nibble.low_eq_self hy] at hlow
  exact ⟨⟨Nibble.low_eq_of_index_eq ha, Nibble.low_eq_of_index_eq hb,
    congrArg Nibble.low hinput, hcarry, hlatch, hlow⟩, hrom⟩

theorem toNat_pc_step_lt (h : cpu.step = (.ok (), next)) : next.regs.pc.toNat < 16 := by
  have hstepped := stepped cpu
  rw [h] at hstepped
  cases hstepped with
  | done => exact Registers.toNat_pc_perform_lt _ _ _

theorem input_steps (cpu : Cpu) (n : Nat) : (cpu.steps n).2.regs.input = cpu.regs.input :=
  steps_induction (P := fun next => next.regs.input = cpu.regs.input)
    (fun next h => (input_step next).trans h) rfl n

/-- A machine that comes back to a state goes round for ever. -/
theorem steps_ok_of_alike {i j : Nat} {later : Cpu} (hij : i < j)
    (hi : cpu.steps i = (.ok (), next)) (hj : cpu.steps j = (.ok (), later))
    (h : next.Alike later) (n : Nat) : (cpu.steps n).1 = .ok () := by
  induction n using Nat.strongRecOn with
  | ind n ih =>
    rcases Nat.lt_or_ge j n with hlt | hle
    · -- the steps after the second visit are those after the first
      obtain ⟨m, rfl⟩ := Nat.exists_eq_add_of_lt hlt
      rw [Nat.add_assoc, steps_add_of_ok hj, ← (h.steps (m + 1)).1, ← steps_add_of_ok hi]
      exact ih _ (by omega)
    · obtain ⟨middle, hmiddle⟩ := exists_steps_of_le hj hle
      rw [hmiddle]

theorem input_of_steps {n : Nat} (h : cpu.steps n = (.ok (), next)) :
    next.regs.input = cpu.regs.input := by
  rw [← input_steps cpu n, h]

theorem rom_of_steps {n : Nat} (h : cpu.steps n = (.ok (), next)) : next.rom = cpu.rom := by
  rw [← rom_steps cpu n, h]

/-- Where so many steps decide that a program goes on for ever, a program that fails
takes fewer. -/
theorem lt_of_decides {bound k : Nat} {last : Cpu} {fault : Fault}
    (hdecides : (cpu.steps bound).1 = .ok () → ∀ n, (cpu.steps n).1 = .ok ())
    (hsteps : cpu.steps k = (.ok (), last)) (hstep : last.step = (.error fault, next)) :
    k < bound := by
  by_contra hlarge
  obtain ⟨middle, hmiddle⟩ := exists_steps_of_le hsteps (Nat.not_lt.mp hlarge)
  have hok := hdecides (congrArg Prod.fst hmiddle) (k + 1)
  rw [steps_succ_of_ok hsteps, hstep] at hok
  cases hok

/-- A program never fails if it takes as many steps as there are states, and from
some step on machines that are in the same of these states are alike. -/
theorem steps_ok_of_card {α : Type} [Fintype α] (state : Cpu → α) (first : Nat)
    (halike : ∀ i j x y, cpu.steps (first + i) = (.ok (), x) → cpu.steps (first + j) = (.ok (), y) →
      state x = state y → x.Alike y)
    (h : (cpu.steps (first + Fintype.card α)).1 = .ok ()) (n : Nat) : (cpu.steps n).1 = .ok () := by
  have hend : cpu.steps (first + Fintype.card α)
      = (.ok (), (cpu.steps (first + Fintype.card α)).2) := Prod.ext h rfl
  have hvisit : ∀ i : Fin (Fintype.card α + 1), ∃ x, cpu.steps (first + i.val) = (.ok (), x) := by
    intro i
    exact exists_steps_of_le hend (by omega)
  choose visit hsteps using hvisit
  -- there are more visits than states
  obtain ⟨i, j, hne, hstate⟩ :=
    Fintype.exists_ne_map_eq_of_card_lt (fun i => state (visit i)) (by simp)
  have hround : ∀ i j, i.val < j.val → state (visit i) = state (visit j) →
      (cpu.steps n).1 = .ok () := by
    intro i j hlt hstate
    exact steps_ok_of_alike (Nat.add_lt_add_left hlt first) (hsteps i) (hsteps j)
      (halike i j _ _ (hsteps i) (hsteps j) hstate) n
  rcases Nat.lt_or_gt_of_ne (Fin.val_ne_of_ne hne) with hlt | hlt
  · exact hround i j hlt hstate
  · exact hround j i hlt hstate.symm

/-- A program that takes so many steps without failing never fails. -/
theorem steps_ok_of_horizon (h : (cpu.steps Worker.horizon).1 = .ok ()) (n : Nat) :
    (cpu.steps n).1 = .ok () := by
  have hpc : ∀ {i : Nat} {x : Cpu}, cpu.steps (1 + i) = (.ok (), x) → x.regs.pc.toNat < 16 := by
    intro i x hx
    rw [Nat.add_comm] at hx
    obtain ⟨before, hbefore⟩ := exists_steps_of_le hx (Nat.le_succ i)
    exact toNat_pc_step_lt ((steps_succ_of_ok hbefore).symm.trans hx)
  refine steps_ok_of_card core 1 ?_ ?_ n
  · intro i j x y hx hy hcore
    exact alike_of_core_eq ((rom_of_steps hx).trans (rom_of_steps hy).symm)
      ((input_of_steps hx).trans (input_of_steps hy).symm) (hpc hx) (hpc hy) hcore
  · have hend : cpu.steps Worker.horizon = (.ok (), (cpu.steps Worker.horizon).2) := Prod.ext h rfl
    have hle : 1 + Fintype.card (Fin 16 × Fin 16 × Fin 16 × Bool × Bool) ≤ Worker.horizon := by
      simp [Worker.horizon]
    obtain ⟨middle, hmiddle⟩ := exists_steps_of_le hend hle
    rw [hmiddle]

end Cpu
end TD4
