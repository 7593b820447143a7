/-
Runs under any schedule.

A run alternates steps and waits until it ends.  `Ran` has a rule for each way a
turn can go, and lists what happens: the steps with their results, and the waits of
the schedule, each with what the host does to the machine meanwhile.

* `ran_of_follow`: a run that ends goes by these rules;
* `Ran.step_of_split` says of each step of a run that there was a reason to take it,
  and `Ran.ending` says why there was none after the last;
* `Accounted` puts together what the report, the announcement and the machine have
  to do with what happened, and `run_accounted` is the main statement;
* a schedule without edits and stops, long enough for the limit, is the limited run
  of the machine (`follow_of_quiet`).
-/
import TD4.Proofs.Cpu.Calls
import TD4.Proofs.Worker.RunToEnd

namespace TD4
namespace Worker

/-! ### What happens -/

/-- What happens in a run. -/
inductive Event
  /-- A step, with its result. -/
  | step (result : Except Fault Unit)
  /-- A wait, with what the host does in it and how it ends. -/
  | wait (wait : Wait)

namespace Event

/-- What an event does to the machine. -/
def apply : Event → Cpu → Cpu
  | .step _, cpu => cpu.step.2
  | .wait w, cpu => w.edit cpu

/-- The machine after a list of events. -/
def replay (cpu : Cpu) (events : List Event) : Cpu :=
  events.foldl (fun cpu event => event.apply cpu) cpu

theorem replay_round (cpu : Cpu) (result : Except Fault Unit) (w : Wait) (rest : List Event) :
    replay cpu (.step result :: .wait w :: rest) = replay (w.edit cpu.step.2) rest := rfl

/-- The results of the steps. -/
def results : List Event → List (Except Fault Unit)
  | [] => []
  | .step result :: rest => result :: results rest
  | .wait _ :: rest => results rest

/-- The waits. -/
def waits : List Event → List Wait
  | [] => []
  | .step _ :: rest => waits rest
  | .wait w :: rest => w :: waits rest

theorem results_append (front back : List Event) :
    results (front ++ back) = results front ++ results back := by
  induction front with
  | nil => rfl
  | cons event rest ih => cases event <;> simp [results, ih]

end Event

/-- The ways a run can go from a worker between two turns.  The machine at its end is
the last index. -/
inductive Ran : Worker → List Wait → Cpu → List Event → RunReport → Cpu → Prop
  /-- There is no step left to take. -/
  | limit {w : Worker} {schedule : List Wait} {cpu : Cpu} (hlimit : w.atLimit = true) :
      Ran w schedule cpu [] ⟨w.steps, none⟩ cpu
  /-- The step fails. -/
  | fault {w : Worker} {schedule : List Wait} {cpu next : Cpu} {fault : Fault}
      (hlimit : w.atLimit = false) (hstep : cpu.step = (.error fault, next)) :
      Ran w schedule cpu [.step (.error fault)] ⟨w.steps, some fault⟩ next
  /-- The step succeeds, and the worker is told to stop. -/
  | stop {w : Worker} {wait : Wait} {rest : List Wait} {cpu next : Cpu}
      (hlimit : w.atLimit = false) (hstep : cpu.step = (.ok (), next))
      (hsignal : wait.signal = .stop) :
      Ran w (wait :: rest) cpu [.step (.ok ()), .wait wait] ⟨w.steps + 1, none⟩ (wait.edit next)
  /-- The step succeeds, the time is over, and the run goes on. -/
  | elapsed {w : Worker} {wait : Wait} {rest : List Wait} {cpu next last : Cpu}
      {events : List Event} {report : RunReport}
      (hlimit : w.atLimit = false) (hstep : cpu.step = (.ok (), next))
      (hsignal : wait.signal = .elapsed)
      (hrest : Ran ⟨w.limit, w.steps + 1⟩ rest (wait.edit next) events report last) :
      Ran w (wait :: rest) cpu (.step (.ok ()) :: .wait wait :: events) report last

variable {w : Worker} {schedule : List Wait} {s after : Shared} {cpu last : Cpu}
  {events front back : List Event} {report : RunReport} {result : Except Fault Unit}
  {limit : Option UInt64} {n : UInt64}

/-- A run that ends goes by the rules, and its outcome is announced once. -/
theorem ran_of_follow (h : follow schedule w s = (.ended report, after)) :
    (∃ events, Ran w schedule s.cpu events report after.cpu) ∧
      after.calls = s.calls ++ [report.fault] := by
  fun_induction follow schedule w s with
  | case1 schedule w s ended shared hturn =>
    -- the turn ends the run
    cases h
    have hturned := turned w s
    rw [hturn] at hturned
    cases hturned with
    | limit hlimit => exact ⟨⟨_, .limit hlimit⟩, rfl⟩
    | fault hlimit hstep => exact ⟨⟨_, .fault hlimit hstep⟩, rfl⟩
  | case2 => cases h
  | case3 w s worker shared hturn wait rest edited hsignal =>
    have hturned := turned w s
    rw [hturn] at hturned
    cases hturned with
    | step hlimit hstep =>
      cases h
      exact ⟨⟨_, .stop hlimit hstep hsignal⟩, rfl⟩
  | case4 w s worker shared hturn wait rest edited hsignal ih =>
    have hturned := turned w s
    rw [hturn] at hturned
    cases hturned with
    | step hlimit hstep =>
      obtain ⟨⟨events, hran⟩, hcalls⟩ := ih h
      exact ⟨⟨_, .elapsed hlimit hstep hsignal hran⟩, hcalls⟩

/-- After these events there is reason to go on: no stop was seen, no step failed, and
the limit is not reached. -/
structure GoesOn (w : Worker) (before : List Event) : Prop where
  signals : ∀ wait, .wait wait ∈ before → wait.signal = .elapsed
  results : ∀ result, .step result ∈ before → result = .ok ()
  room : ∀ n, w.limit = some n → w.steps + Cpu.successes (Event.results before) < n.toNat

theorem goesOn_nil (h : w.atLimit = false) : w.GoesOn [] :=
  ⟨fun _ hmem => absurd hmem List.not_mem_nil, fun _ hmem => absurd hmem List.not_mem_nil,
    fun _ hlimit => lt_of_not_atLimit h hlimit⟩

theorem GoesOn.round {wait : Wait} (h : GoesOn ⟨w.limit, w.steps + 1⟩ front)
    (hsignal : wait.signal = .elapsed) : w.GoesOn (.step (.ok ()) :: .wait wait :: front) := by
  constructor
  · intro other hmem
    simp only [List.mem_cons, reduceCtorEq, false_or, Event.wait.injEq] at hmem
    rcases hmem with rfl | hmem
    · exact hsignal
    · exact h.signals other hmem
  · intro other hmem
    simp only [List.mem_cons, reduceCtorEq, false_or, Event.step.injEq] at hmem
    rcases hmem with rfl | hmem
    · rfl
    · exact h.results other hmem
  · intro n hlimit
    have hroom := h.room n hlimit
    rw [Event.results, Event.results, Cpu.successes_ok]
    change _ + 1 + _ < _ at hroom
    omega

namespace Ran

/-! ### What the rules keep -/

theorem waits_prefix (h : Ran w schedule cpu events report last) :
    Event.waits events <+: schedule := by
  induction h with
  | limit => exact List.nil_prefix
  | fault => exact List.nil_prefix
  | stop => exact List.prefix_append [_] _
  | elapsed _ _ _ _ ih => exact (List.prefix_cons_inj _).mpr ih

theorem replay_eq (h : Ran w schedule cpu events report last) :
    Event.replay cpu events = last := by
  induction h with
  | limit => rfl
  | fault _ hstep => exact congrArg Prod.snd hstep
  | stop _ hstep =>
    rw [Event.replay_round, hstep]
    rfl
  | elapsed _ hstep _ _ ih =>
    rw [Event.replay_round, hstep]
    exact ih

theorem steps_eq (h : Ran w schedule cpu events report last) :
    report.steps = w.steps + Cpu.successes (Event.results events) := by
  induction h with
  | limit => rfl
  | fault => rfl
  | stop => rfl
  | elapsed _ _ _ _ ih =>
    rw [ih, Event.results, Event.results, Cpu.successes_ok]
    show _ + 1 + _ = _
    omega

/-- With room for the steps so far, there is room for all of them. -/
theorem length_results_le (h : Ran w schedule cpu events report last) (hlimit : w.limit = some n)
    (hroom : w.steps ≤ n.toNat) : w.steps + (Event.results events).length ≤ n.toNat := by
  induction h with
  | limit => exact hroom
  | fault hoff => exact lt_of_not_atLimit hoff hlimit
  | stop hoff => exact lt_of_not_atLimit hoff hlimit
  | elapsed hoff _ _ _ ih =>
    have hrest := ih hlimit (lt_of_not_atLimit hoff hlimit)
    rw [Event.results, Event.results, List.length_cons]
    change _ + 1 + _ ≤ _ at hrest
    omega

/-- A step of a run is a step of the machine that the events before it leave, and
there was reason to take it. -/
theorem step_of_split (h : Ran w schedule cpu events report last)
    (hsplit : events = front ++ .step result :: back) :
    result = (Event.replay cpu front).step.1 ∧ w.GoesOn front := by
  induction h generalizing front with
  | limit => simp at hsplit
  | fault hoff hstep =>
    cases front with
    | nil =>
      cases hsplit
      exact ⟨(congrArg Prod.fst hstep).symm, goesOn_nil hoff⟩
    | cons first front => simp at hsplit
  | stop hoff hstep =>
    rcases front with _ | ⟨first, _ | ⟨second, front⟩⟩
    · cases hsplit
      exact ⟨(congrArg Prod.fst hstep).symm, goesOn_nil hoff⟩
    · -- the second event is a wait
      cases hsplit
    · simp at hsplit
  | elapsed hoff hstep hsignal _ ih =>
    rcases front with _ | ⟨first, _ | ⟨second, front⟩⟩
    · cases hsplit
      exact ⟨(congrArg Prod.fst hstep).symm, goesOn_nil hoff⟩
    · cases hsplit
    · -- a later round
      simp only [List.cons_append, List.cons.injEq] at hsplit
      obtain ⟨rfl, rfl, hrest⟩ := hsplit
      obtain ⟨hresult, hgoesOn⟩ := ih hrest
      refine ⟨?_, hgoesOn.round hsignal⟩
      rw [hresult, Event.replay_round, hstep]

theorem fault_iff (h : Ran w schedule cpu events report last) (fault : Fault) :
    report.fault = some fault ↔ (Event.results events).getLast? = some (.error fault) := by
  induction h with
  | limit => simp [Event.results]
  | fault => simp [Event.results]
  | stop => simp [Event.results]
  | @elapsed _ _ _ _ _ _ events _ _ _ _ _ ih =>
    rw [ih, Event.results, Event.results, List.getLast?_cons]
    rcases (Event.results events).getLast? with _ | result <;> simp

/-- Why a run takes no further step: it was told to stop after a step that succeeded,
it is at its limit, or its last step failed. -/
theorem ending (h : Ran w schedule cpu events report last) :
    (∃ front wait, events = front ++ [.step (.ok ()), .wait wait] ∧ wait.signal = .stop ∧
        report.fault = none) ∨
      ((⟨w.limit, report.steps⟩ : Worker).atLimit = true ∧ report.fault = none) ∨
      ∃ front fault, events = front ++ [.step (.error fault)] ∧ report.fault = some fault := by
  induction h with
  | limit hlimit => exact Or.inr (Or.inl ⟨hlimit, rfl⟩)
  | fault => exact Or.inr (Or.inr ⟨[], _, rfl, rfl⟩)
  | stop _ _ hsignal => exact Or.inl ⟨[], _, rfl, hsignal, rfl⟩
  | elapsed _ _ _ _ ih =>
    rcases ih with ⟨front, wait, rfl, hstop⟩ | hlimit | ⟨front, fault, rfl, hfault⟩
    · exact Or.inl ⟨_ :: _ :: front, wait, rfl, hstop⟩
    · exact Or.inr (Or.inl hlimit)
    · exact Or.inr (Or.inr ⟨_ :: _ :: front, fault, rfl, hfault⟩)

/-- A run that ends at its limit has taken exactly so many steps, all successfully. -/
theorem fault_eq_none_iff (h : Ran w schedule cpu events report last)
    (hroom : ∀ n, w.limit = some n → w.steps ≤ n.toNat) :
    report.fault = none ↔
      (∃ front wait, events = front ++ [.step (.ok ()), .wait wait] ∧ wait.signal = .stop) ∨
        ∃ n, w.limit = some n ∧ report.steps = n.toNat := by
  have hsteps := h.steps_eq
  constructor
  · intro hnone
    rcases h.ending with ⟨front, wait, hsplit, hstop, -⟩ | ⟨hlimit, -⟩ | ⟨-, fault, -, hfault⟩
    · exact Or.inl ⟨front, wait, hsplit, hstop⟩
    · obtain ⟨n, hn, hle⟩ := atLimit_iff.mp hlimit
      have hlength := h.length_results_le hn (hroom n hn)
      have hcount : Cpu.successes (Event.results events) ≤ (Event.results events).length :=
        List.countP_le_length
      refine Or.inr ⟨n, hn, ?_⟩
      omega
    · rw [hnone] at hfault
      cases hfault
  · intro hend
    rcases h.ending with ⟨-, -, -, -, hnone⟩ | ⟨-, hnone⟩ | ⟨front, fault, rfl, -⟩
    · exact hnone
    · exact hnone
    · -- a step that failed is followed by no wait, and was taken below the limit
      exfalso
      rcases hend with ⟨front', wait, hsplit, -⟩ | ⟨n, hn, heq⟩
      · have hlast := congrArg List.getLast? hsplit
        simp at hlast
      · have hlast : front ++ [.step (.error fault)] = front ++ Event.step (.error fault) :: [] := rfl
        have hroom := (h.step_of_split hlast).2.room n hn
        rw [Event.results_append, Cpu.successes_append] at hsteps
        change _ = _ + (_ + 0) at hsteps
        omega

end Ran

/-! ### The account of a run -/

/-- What the report of a run, the announcement and the machine have to do with what
happened in the run. -/
structure Accounted (limit : Option UInt64) (schedule : List Wait) (s : Shared)
    (events : List Event) (report : RunReport) (after : Shared) : Prop where
  /-- The run took at most as many steps as it may. -/
  bound : ∀ n, limit = some n → (Event.results events).length ≤ n.toNat
  /-- The report counts the successful steps. -/
  steps : report.steps = Cpu.successes (Event.results events)
  /-- The report has a fault if the last step failed with it. -/
  fault : ∀ fault, report.fault = some fault ↔
    (Event.results events).getLast? = some (.error fault)
  /-- It has none if the worker was told to stop right after a successful step, or took
  exactly as many successful steps as it may. -/
  noFault : report.fault = none ↔
    (∃ front wait, events = front ++ [.step (.ok ()), .wait wait] ∧ wait.signal = .stop) ∨
      ∃ n, limit = some n ∧ report.steps = n.toNat
  /-- The outcome was announced once. -/
  announced : after.calls = s.calls ++ [report.fault]
  /-- No step was taken after a stop, after a step that failed, or at the limit. -/
  goesOn : ∀ front result back, events = front ++ .step result :: back →
    (∀ wait, .wait wait ∈ front → wait.signal = .elapsed) ∧
      (∀ other, .step other ∈ front → other = .ok ()) ∧
      ∀ n, limit = some n → Cpu.successes (Event.results front) < n.toNat
  /-- Each step is one of the machine that the steps and edits before it leave. -/
  true_results : ∀ front result back, events = front ++ .step result :: back →
    result = (Event.replay s.cpu front).step.1
  /-- The waits are those of the schedule, in its order. -/
  waits : Event.waits events <+: schedule
  /-- The machine is what the steps and edits leave, each in its turn. -/
  cpu : after.cpu = Event.replay s.cpu events

/-- Under waits that pass without an edit a run is a number of turns in a row. -/
theorem follow_replicate_quiet (w : Worker) (s : Shared) (m : Nat) :
    follow (List.replicate m Wait.quiet) w s = w.finish (m + 1) s := by
  induction m generalizing w s with
  | zero =>
    rw [finish, List.replicate_zero, follow]
    rcases w.turn s with ⟨_ | _, next⟩ <;> rfl
  | succ m ih =>
    rw [finish, List.replicate_succ, follow]
    rcases w.turn s with ⟨worker | report, next⟩
    · exact ih worker next
    · rfl

/-- Under a schedule without edits and stops that is long enough for its limit, a run
ends, and is the limited run of the machine. -/
theorem follow_of_quiet (s : Shared) (hquiet : ∀ wait ∈ schedule, wait = .quiet)
    (hlong : n.toNat ≤ schedule.length) :
    ∃ report, follow schedule (start (some n)) s
        = (.ended report, ⟨(s.cpu.runLimited n).2, s.calls ++ [report.fault]⟩) ∧
      (s.cpu.runLimited n).1 = (match report.fault with
        | some fault => .error fault
        | none => .ok n) ∧
      (report.fault = none → report.steps = n.toNat) := by
  obtain ⟨report, next, hends⟩ := Cpu.exists_ends s.cpu n
  have hsteps : report.steps < n.toNat + 1 := steps_lt_turnsFor hends
  refine ⟨report, ?_, congrArg Prod.fst hends.runLimited, ?_⟩
  · rw [List.eq_replicate_of_mem hquiet, follow_replicate_quiet,
      finish_of_ends hends (Nat.lt_of_lt_of_le hsteps (Nat.succ_le_succ hlong)), hends.runLimited]
    rfl
  · intro hnone
    cases hends with
    | limit hlimit =>
      cases hlimit
      rfl
    | fault => cases hnone

theorem Ran.accounted (h : Ran (start limit) schedule s.cpu events report after.cpu)
    (hcalls : after.calls = s.calls ++ [report.fault]) :
    Accounted limit schedule s events report after where
  bound n hlimit := by
    have hlength := h.length_results_le hlimit (Nat.zero_le _)
    rwa [start, Nat.zero_add] at hlength
  steps := h.steps_eq.trans (Nat.zero_add _)
  fault := h.fault_iff
  noFault := h.fault_eq_none_iff fun _ _ => Nat.zero_le _
  announced := hcalls
  goesOn front result back hsplit := by
    obtain ⟨hsignals, hresults, hroom⟩ := (h.step_of_split hsplit).2
    refine ⟨hsignals, hresults, ?_⟩
    intro n hlimit
    have hlt := hroom n hlimit
    rwa [start, Nat.zero_add] at hlt
  true_results _ _ _ hsplit := (h.step_of_split hsplit).1
  waits := h.waits_prefix
  cpu := h.replay_eq.symm

/-- **The account of a run is right under any schedule.**  Whatever a host does in the
waits of a run and however these end, if the run ends then its report, the outcome
it announces and the machine it leaves are those of the steps that it took.  A run
with a limit that is left to itself ends, and is the limited run of the machine. -/
theorem run_accounted (s : Shared) :
    (∀ limit schedule report after, follow schedule (start limit) s = (.ended report, after) →
      ∃ events, Ran (start limit) schedule s.cpu events report after.cpu ∧
        Accounted limit schedule s events report after) ∧
    ∀ n schedule, (∀ wait ∈ schedule, wait = .quiet) → n.toNat ≤ schedule.length →
      ∃ report, follow schedule (start (some n)) s
          = (.ended report, ⟨(s.cpu.runLimited n).2, s.calls ++ [report.fault]⟩) ∧
        (s.cpu.runLimited n).1 = (match report.fault with
          | some fault => .error fault
          | none => .ok n) ∧
        (report.fault = none → report.steps = n.toNat) := by
  constructor
  · intro limit schedule report after hfollow
    obtain ⟨⟨events, hran⟩, hcalls⟩ := ran_of_follow hfollow
    exact ⟨events, hran, hran.accounted hcalls⟩
  · intro n schedule hquiet hlong
    exact follow_of_quiet s hquiet hlong

/-- A run that is stopped in its second wait, just as it reaches its limit, after its
host has put another program in the place of the first; and one that is left to
itself and halts. -/
theorem run_accounted_stop :
    let s : Shared := ⟨.ofImage [0xE0], [none]⟩
    let schedule : List Wait :=
      [⟨fun cpu => { cpu with rom := .ofImage [0x35, 0xF1] }, .elapsed⟩, ⟨id, .stop⟩]
    (∃ events after, follow schedule (start (some 2)) s = (.ended ⟨2, none⟩, after) ∧
        after.cpu.regs.a = 5 ∧ Accounted (some 2) schedule s events ⟨2, none⟩ after) ∧
      ∃ report, follow [.quiet, .quiet] (start (some 2)) ⟨.ofImage [0x35, 0xF1], []⟩
          = (.ended report, ⟨((Cpu.ofImage [0x35, 0xF1]).runLimited 2).2, [report.fault]⟩) ∧
        ((Cpu.ofImage [0x35, 0xF1]).runLimited 2).1 = .error .halted := by
  intro s schedule
  constructor
  · have hfollow : follow schedule (start (some 2)) s
        = (.ended ⟨2, none⟩, (follow schedule (start (some 2)) s).2) := Prod.ext (by decide) rfl
    obtain ⟨events, -, haccounted⟩ := (run_accounted s).1 _ _ _ _ hfollow
    exact ⟨events, _, hfollow, by decide, haccounted⟩
  · obtain ⟨report, hfollow, -, -⟩ := (run_accounted ⟨.ofImage [0x35, 0xF1], []⟩).2 2
      [.quiet, .quiet] (by simp) (by decide)
    exact ⟨report, hfollow, by decide⟩

end Worker
end TD4
