/-
Calls that go on.

A host may call a machine again after a step that failed: a machine that halted
halts again, and an unused opcode is met again with the carry latch clocked.
`calls` makes a number of calls and keeps what each of them answers.

* `calls_succ`: the last call is a step of the machine that the others leave;
* `rom_calls`, `input_calls`: calls leave the ROM and the input port alone;
* `cycles_calls`: the count grows by one for each call that succeeds.
-/
import TD4.Proofs.Cpu.Steps

namespace TD4
namespace Cpu

/-- The results of a number of calls of `step`, failing or not, and the last
state. -/
def calls : Nat → Cpu → List (Except Fault Unit) × Cpu
  | 0, cpu => ([], cpu)
  | n + 1, cpu => (cpu.step.1 :: (calls n cpu.step.2).1, (calls n cpu.step.2).2)

/-- How many of the results are successes? -/
def successes (results : List (Except Fault Unit)) : Nat := results.countP Except.isOk

theorem calls_succ (cpu : Cpu) (n : Nat) :
    cpu.calls (n + 1)
      = ((cpu.calls n).1 ++ [(cpu.calls n).2.step.1], (cpu.calls n).2.step.2) := by
  induction n generalizing cpu with
  | zero => rfl
  | succ n ih =>
    rw [calls, ih]
    rfl

theorem rom_calls (cpu : Cpu) (n : Nat) : (cpu.calls n).2.rom = cpu.rom := by
  induction n generalizing cpu with
  | zero => rfl
  | succ n ih => exact (ih cpu.step.2).trans (rom_step cpu)

theorem input_calls (cpu : Cpu) (n : Nat) : (cpu.calls n).2.regs.input = cpu.regs.input := by
  induction n generalizing cpu with
  | zero => rfl
  | succ n ih => exact (ih cpu.step.2).trans (input_step cpu)

theorem result_of_mem_calls {cpu : Cpu} {n : Nat} {result : Except Fault Unit}
    (h : result ∈ (cpu.calls n).1) :
    result = .ok () ∨ result = .error .halted ∨
      ∃ opcode ∈ ([8, 10, 12, 13] : List UInt8), result = .error (.invalidOpcode opcode) := by
  induction n generalizing cpu with
  | zero => exact absurd h List.not_mem_nil
  | succ n ih =>
    rcases List.mem_cons.mp h with rfl | hrest
    · exact result_step cpu
    · exact ih hrest

/-! ### Counting successes -/

theorem successes_ok (results : List (Except Fault Unit)) :
    successes (.ok () :: results) = successes results + 1 :=
  List.countP_cons_of_pos rfl

theorem successes_append (front back : List (Except Fault Unit)) :
    successes (front ++ back) = successes front + successes back :=
  List.countP_append

theorem cycles_step_eq (cpu : Cpu) :
    cpu.step.2.cycles = cpu.cycles + UInt64.ofNat (successes [cpu.step.1]) := by
  rcases hstep : cpu.step with ⟨_ | _, next⟩
  · exact (shown_of_step_fault hstep).2.2.2.2.trans (UInt64.add_zero _).symm
  · exact cycles_step hstep

theorem cycles_calls (cpu : Cpu) (n : Nat) :
    (cpu.calls n).2.cycles = cpu.cycles + UInt64.ofNat (successes (cpu.calls n).1) := by
  induction n with
  | zero => exact (UInt64.add_zero _).symm
  | succ n ih =>
    rw [calls_succ, cycles_step_eq, ih, successes_append, UInt64.ofNat_add, UInt64.add_assoc]

theorem cycles_calls_sub (cpu : Cpu) (n : Nat) :
    (cpu.calls n).2.cycles - cpu.cycles = UInt64.ofNat (successes (cpu.calls n).1) := by
  rw [cycles_calls, UInt64.add_comm, UInt64.add_sub_cancel]

end Cpu
end TD4
