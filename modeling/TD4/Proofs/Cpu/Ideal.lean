/-
The machine over genuine four-bit words.

`Ideal` is the machine as its description has it: words are numbers modulo 16,
an addition carries if the true sum reaches 16, and a byte is an opcode with an
immediate.  Nothing in it speaks of cells or masks.

* `Ideal.Matches` says that a machine with eight-bit cells is in the same state
  as an ideal one;
* `Ideal.Matches.step`: a step of both gives the same result and leads to
  matching machines again;
* `refines_ideal` is the main statement: calls of any number agree with the
  ideal machine in every result and in the final state.

Calls go on after a step that fails, as a host may do: a machine that halted
halts again, and an unused opcode is met again with the carry latch clocked.
-/
import TD4.Proofs.Cpu.Calls
import Mathlib.Tactic.IntervalCases

namespace TD4

abbrev Word := Fin 16

structure Ideal where
  a : Word
  b : Word
  input : Word
  output : Word
  pc : Word
  carry : Bool
  /-- Set once a raised carry has been clocked. -/
  latch : Bool
  /-- The opcode and the immediate at each address. -/
  program : Word → Word × Word

namespace Ideal

/-- How a step ends. -/
inductive Outcome
  | done
  /-- The instruction is a jump to its own address. -/
  | halted
  /-- The opcode names no operation. -/
  | unused (opcode : Word)

/-- What a host is told about an outcome. -/
def Outcome.result : Outcome → Except Fault Unit
  | .done => .ok ()
  | .halted => .error .halted
  | .unused opcode => .error (.invalidOpcode (UInt8.ofNat opcode.val))

def overflows (x y : Word) : Bool := decide (16 ≤ x.val + y.val)

/-- Clock the latch: with flag and latch set both are cleared, with the flag
alone the latch is set. -/
def clock (m : Ideal) : Ideal :=
  match m.carry, m.latch with
  | true, true => { m with carry := false, latch := false }
  | true, false => { m with latch := true }
  | false, _ => m

/-- Take a carry from the adder; this restarts the latch. -/
def renew (m : Ideal) (c : Bool) : Ideal := { m with carry := c, latch := false }

def next (m : Ideal) : Ideal := { m with pc := m.pc + 1 }

/-- Perform the operation that an opcode names.  The opcodes 8, 10, 12 and 13 name
nothing. -/
def dispatch (m : Ideal) (imm : Word) : Word → Outcome × Ideal
  | 0 => (.done, (renew { m with a := m.a + imm } (overflows m.a imm)).next)
  | 1 => (.done, next { m with a := m.b })
  | 2 => (.done, next { m with a := m.input })
  | 3 => (.done, next { m with a := imm })
  | 4 => (.done, next { m with b := m.a })
  | 5 => (.done, (renew { m with b := m.b + imm } (overflows m.b imm)).next)
  | 6 => (.done, next { m with b := m.input })
  | 7 => (.done, next { m with b := imm })
  | 9 => (.done, (renew { m with output := m.b + imm } (overflows m.b imm)).next)
  | 11 => (.done, next { m with output := imm })
  | 14 => (.done, if m.carry then m.next else { m with pc := imm })
  | 15 => (.done, { m with pc := imm })
  | opcode => (.unused opcode, m)

/-- Fetch, look for a jump to the own address, clock the latch and perform. -/
def step (m : Ideal) : Outcome × Ideal :=
  if m.program m.pc = (15, m.pc) then (.halted, m)
  else m.clock.dispatch (m.program m.pc).2 (m.program m.pc).1

/-- The outcomes of a number of steps, failing or not, and the last state. -/
def calls : Nat → Ideal → List Outcome × Ideal
  | 0, m => ([], m)
  | n + 1, m => (m.step.1 :: (calls n m.step.2).1, (calls n m.step.2).2)

/-- The ideal machine in the state of a machine whose registers hold nibbles. -/
def ofCpu (cpu : Cpu) : Ideal where
  a := Fin.ofNat 16 cpu.regs.a.toNat
  b := Fin.ofNat 16 cpu.regs.b.toNat
  input := Fin.ofNat 16 cpu.regs.input.toNat
  output := Fin.ofNat 16 cpu.regs.output.toNat
  pc := Fin.ofNat 16 cpu.regs.pc.toNat
  carry := cpu.regs.carry
  latch := cpu.regs.latch
  program addr :=
    (Fin.ofNat 16 ((cpu.rom.cells.get addr).toNat / 16),
      Fin.ofNat 16 (cpu.rom.cells.get addr).toNat)

end Ideal

namespace Ideal

variable {m : Ideal} {r : Registers} {x : UInt8} {w : Word}

/-! ### Matching registers -/

/-- Cells hold the words of an ideal machine. -/
structure Agrees (m : Ideal) (r : Registers) : Prop where
  a : r.a.toNat = m.a.val
  b : r.b.toNat = m.b.val
  input : r.input.toNat = m.input.val
  output : r.output.toNat = m.output.val
  pc : r.pc.toNat = m.pc.val
  carry : r.carry = m.carry
  latch : r.latch = m.latch

theorem toNat_low_eq (h : x.toNat = w.val) : (Nibble.low x).toNat = w.val := by
  rw [Nibble.toNat_low, h]
  exact Nat.mod_eq_of_lt w.isLt

theorem toNat_add_eq {y : UInt8} {v : Word} (hx : x.toNat = w.val) (hy : y.toNat = v.val) :
    (Nibble.add x y).1.toNat = (w + v).val := by
  rw [Nibble.toNat_add_fst, hx, hy, Fin.val_add]

theorem add_carry_eq {y : UInt8} {v : Word} (hx : x.toNat = w.val) (hy : y.toNat = v.val) :
    (Nibble.add x y).2 = overflows w v := by
  rw [Nibble.add_snd, hx, hy, Nat.mod_eq_of_lt w.isLt, Nat.mod_eq_of_lt v.isLt]
  rfl

namespace Agrees

theorem setA (h : m.Agrees r) (hx : x.toNat = w.val) : Agrees { m with a := w } (r.setA x) :=
  { h with a := toNat_low_eq hx }

theorem setB (h : m.Agrees r) (hx : x.toNat = w.val) : Agrees { m with b := w } (r.setB x) :=
  { h with b := toNat_low_eq hx }

theorem setOutput (h : m.Agrees r) (hx : x.toNat = w.val) :
    Agrees { m with output := w } (r.setOutput x) :=
  { h with output := toNat_low_eq hx }

theorem setPc (h : m.Agrees r) (hx : x.toNat = w.val) : Agrees { m with pc := w } (r.setPc x) :=
  { h with pc := toNat_low_eq hx }

theorem captureCarry (h : m.Agrees r) (c : Bool) : (m.renew c).Agrees (r.captureCarry c) :=
  { h with carry := rfl, latch := rfl }

theorem advancePc (h : m.Agrees r) : m.next.Agrees r.advancePc := by
  have hpc : (Nibble.low (r.pc + 1)).toNat = (m.pc + 1).val := by
    have hlt : m.pc.val < 16 := m.pc.isLt
    rw [Nibble.toNat_low, UInt8.toNat_add, h.pc, Fin.val_add]
    show (m.pc.val + 1) % 2 ^ 8 % 16 = (m.pc.val + 1) % 16
    omega
  exact { h with pc := hpc }

theorem clockCarry (h : m.Agrees r) : m.clock.Agrees r.clockCarry := by
  have hcarry := h.carry
  have hlatch := h.latch
  unfold Registers.clockCarry clock
  rcases hc : m.carry with _ | _
  · rw [hcarry, hc, if_neg Bool.false_ne_true]
    exact h
  · rw [hcarry, hc, if_pos rfl]
    rcases hl : m.latch with _ | _
    · rw [hlatch, hl, if_neg Bool.false_ne_true]
      exact { h with carry := rfl, latch := rfl }
    · rw [hlatch, hl, if_pos rfl]
      exact { h with carry := rfl, latch := rfl }

/-- An operation does on cells what it does on words. -/
theorem perform {op : Operation} {imm : UInt8} {opcode i : Word} (h : m.Agrees r)
    (hop : op.opcode.toNat = opcode.val) (himm : imm.toNat = i.val) :
    (m.dispatch i opcode).1 = .done ∧ (m.dispatch i opcode).2.Agrees (r.perform op imm) := by
  -- the opcode is a numeral for each operation, so that `dispatch` computes
  obtain ⟨code, hlt⟩ := opcode
  change op.opcode.toNat = code at hop
  subst hop
  cases op with
  | addA =>
    refine ⟨rfl, ?_⟩
    rw [Registers.perform, add_carry_eq h.a himm]
    exact ((h.setA (toNat_add_eq h.a himm)).captureCarry _).advancePc
  | movAB => exact ⟨rfl, (h.setA h.b).advancePc⟩
  | inA => exact ⟨rfl, (h.setA h.input).advancePc⟩
  | movA => exact ⟨rfl, (h.setA himm).advancePc⟩
  | movBA => exact ⟨rfl, (h.setB h.a).advancePc⟩
  | addB =>
    refine ⟨rfl, ?_⟩
    rw [Registers.perform, add_carry_eq h.b himm]
    exact ((h.setB (toNat_add_eq h.b himm)).captureCarry _).advancePc
  | inB => exact ⟨rfl, (h.setB h.input).advancePc⟩
  | movB => exact ⟨rfl, (h.setB himm).advancePc⟩
  | outB =>
    refine ⟨rfl, ?_⟩
    rw [Registers.perform, add_carry_eq h.b himm]
    exact ((h.setOutput (toNat_add_eq h.b himm)).captureCarry _).advancePc
  | out => exact ⟨rfl, (h.setOutput himm).advancePc⟩
  | jnc =>
    refine ⟨rfl, ?_⟩
    rw [Registers.perform, h.carry]
    show Agrees (if m.carry then m.next else { m with pc := i }) _
    split
    · exact h.advancePc
    · exact h.setPc himm
  | jmp => exact ⟨rfl, h.setPc himm⟩

end Agrees

theorem dispatch_unused {opcode : UInt8} {code : Word} (m : Ideal) (i : Word)
    (hop : Operation.ofOpcode? opcode = none) (hcode : opcode.toNat = code.val) :
    m.dispatch i code = (.unused code, m) := by
  obtain ⟨code, hlt⟩ := code
  rw [Operation.ofOpcode?] at hop
  rw [show opcode.toNat = code from hcode] at hop
  interval_cases code <;> first | rfl | cases hop

/-! ### Matching machines -/

theorem program_clock (m : Ideal) : m.clock.program = m.program := by
  rw [clock]
  split <;> rfl

theorem program_dispatch (m : Ideal) (i code : Word) :
    (m.dispatch i code).2.program = m.program := by
  obtain ⟨code, hlt⟩ := code
  by_cases hjnc : code = 14
  · subst hjnc
    show (if m.carry then m.next else { m with pc := i }).program = m.program
    split <;> rfl
  · interval_cases code <;> first | rfl | exact absurd rfl hjnc

/-- An ideal machine and one with eight-bit cells are in the same state. -/
structure Matches (m : Ideal) (cpu : Cpu) : Prop where
  registers : m.Agrees cpu.regs
  /-- The byte at an address has the opcode in its high and the immediate in its
  low half. -/
  program : ∀ addr : Word, (cpu.rom.cells.get addr).toNat
    = 16 * (m.program addr).1.val + (m.program addr).2.val

theorem matches_ofCpu {cpu : Cpu} (h : cpu.regs.Bounded) : (ofCpu cpu).Matches cpu := by
  have hword : ∀ {x : UInt8}, x.toNat ≤ 15 → x.toNat = (Fin.ofNat 16 x.toNat).val := fun hx =>
    (Nat.mod_eq_of_lt (Nat.lt_succ_of_le hx)).symm
  refine ⟨⟨hword h.a, hword h.b, hword h.input, hword h.output, hword h.pc, rfl, rfl⟩, ?_⟩
  intro addr
  have hlt := (cpu.rom.cells.get addr).toNat_lt
  show _ = 16 * ((cpu.rom.cells.get addr).toNat / 16 % 16) + (cpu.rom.cells.get addr).toNat % 16
  omega

namespace Matches

variable {cpu : Cpu}

theorem fetched (h : m.Matches cpu) :
    cpu.fetched.1.toNat = (m.program m.pc).1.val ∧
      cpu.fetched.2.toNat = (m.program m.pc).2.val := by
  -- the fetch masks the program counter, which is a nibble already
  have haddr : cpu.rom.fetch cpu.regs.pc = cpu.rom.cells.get m.pc := by
    have hpc : cpu.regs.pc.toNat % 16 = m.pc.val := by
      rw [h.registers.pc]
      exact Nat.mod_eq_of_lt m.pc.isLt
    simp only [Rom.fetch, hpc]
  have hbyte := h.program m.pc
  have hopcode := (m.program m.pc).1.isLt
  have himm := (m.program m.pc).2.isLt
  constructor
  · rw [Cpu.fetched, haddr, Instruction.split, UInt8.toNat_shiftRight, hbyte]
    show _ >>> 4 = _
    rw [Nat.shiftRight_eq_div_pow]
    omega
  · rw [Cpu.fetched, haddr, Instruction.split, Nibble.toNat_low, hbyte]
    omega

theorem atSelfJump_iff (h : m.Matches cpu) :
    cpu.atSelfJump = true ↔ m.program m.pc = (15, m.pc) := by
  obtain ⟨hopcode, himm⟩ := h.fetched
  rw [Cpu.atSelfJump_iff, Prod.ext_iff, Prod.ext_iff, ← UInt8.toNat_inj, ← UInt8.toNat_inj,
    hopcode, himm, h.registers.pc, Fin.ext_iff, Fin.ext_iff]
  rfl

theorem not_selfJump (h : m.Matches cpu) (hat : cpu.atSelfJump = false) :
    m.program m.pc ≠ (15, m.pc) := by
  rw [ne_eq, ← h.atSelfJump_iff, hat]
  exact Bool.false_ne_true

/-- A step of matching machines gives the same result and matching machines. -/
theorem step (h : m.Matches cpu) :
    cpu.step.1 = m.step.1.result ∧ m.step.2.Matches cpu.step.2 := by
  obtain ⟨hopcode, himm⟩ := h.fetched
  have hclock := h.registers.clockCarry
  have hstepped := Cpu.stepped cpu
  generalize cpu.step = outcome at hstepped
  cases hstepped with
  | halted hat =>
    rw [Ideal.step, if_pos (h.atSelfJump_iff.mp hat)]
    exact ⟨rfl, h.registers, h.program⟩
  | unused hat hunused =>
    rw [Ideal.step, if_neg (h.not_selfJump hat), dispatch_unused _ _ hunused hopcode]
    refine ⟨?_, hclock, ?_⟩
    · rw [Outcome.result, ← hopcode, UInt8.ofNat_toNat]
    · rw [program_clock]
      exact h.program
  | @done op hat hused =>
    have hop : op.opcode.toNat = (m.program m.pc).1.val := by
      rw [Operation.opcode_of_ofOpcode? hused, hopcode]
    obtain ⟨hdone, hregisters⟩ := hclock.perform hop himm
    rw [Ideal.step, if_neg (h.not_selfJump hat), hdone]
    refine ⟨rfl, hregisters, ?_⟩
    rw [program_dispatch, program_clock]
    exact h.program

/-- Calls of matching machines give the same results and matching machines. -/
theorem calls (h : m.Matches cpu) (n : Nat) :
    (cpu.calls n).1 = (m.calls n).1.map Outcome.result ∧ (m.calls n).2.Matches (cpu.calls n).2 := by
  induction n generalizing m cpu with
  | zero => exact ⟨rfl, h⟩
  | succ n ih =>
    -- one call, then the rest from the matching machines it leads to
    obtain ⟨hresult, hnext⟩ := h.step
    obtain ⟨hresults, hlast⟩ := ih hnext
    refine ⟨?_, hlast⟩
    rw [Cpu.calls, Ideal.calls, List.map_cons, hresult, hresults]

end Matches
end Ideal

namespace Cpu

/-- **The machine is the ideal machine.**  However often a machine whose registers
hold nibbles is called, the results are those of the ideal machine and it ends
in the same state, with the ROM and the input port as they were.  A call fails
only at a jump to its own address or at an unused opcode, and always at one of
these. -/
theorem refines_ideal {cpu : Cpu} (h : cpu.regs.Bounded) (n : Nat) :
    (cpu.calls n).1 = ((Ideal.ofCpu cpu).calls n).1.map Ideal.Outcome.result ∧
      ((Ideal.ofCpu cpu).calls n).2.Matches (cpu.calls n).2 ∧
      (cpu.calls n).2.rom = cpu.rom ∧
      (cpu.calls n).2.regs.input = cpu.regs.input ∧
      (∀ result ∈ (cpu.calls n).1, result = .ok () ∨ result = .error .halted ∨
        ∃ opcode ∈ ([8, 10, 12, 13] : List UInt8), result = .error (.invalidOpcode opcode)) ∧
      ∀ opcode, (cpu.calls n).2.step.1 = .error (.invalidOpcode opcode) ↔
        (cpu.calls n).2.fetched.1 = opcode ∧ opcode ∈ ([8, 10, 12, 13] : List UInt8) := by
  obtain ⟨hresults, hlast⟩ := (Ideal.matches_ofCpu h).calls n
  exact ⟨hresults, hlast, rom_calls cpu n, input_calls cpu n, fun _ => result_of_mem_calls,
    fun _ => step_eq_invalidOpcode_iff⟩

/-- A program that overflows, meets `jnc` once with and once without the carry, and
ends at an unused opcode. -/
theorem refines_ideal_program :
    (ofImage [0x3F, 0x01, 0xE0, 0xE5, 0x00, 0x80]).regs.Bounded ∧
      ((ofImage [0x3F, 0x01, 0xE0, 0xE5, 0x00, 0x80]).calls 6).1
        = [.ok (), .ok (), .ok (), .ok (), .error (.invalidOpcode 8), .error (.invalidOpcode 8)] ∧
      ((ofImage [0x3F, 0x01, 0xE0, 0xE5, 0x00, 0x80]).calls 6).1
        = ((Ideal.ofCpu (ofImage [0x3F, 0x01, 0xE0, 0xE5, 0x00, 0x80])).calls 6).1.map
            Ideal.Outcome.result :=
  ⟨Registers.Bounded.zero, by decide, (refines_ideal Registers.Bounded.zero 6).1⟩

end Cpu
end TD4
