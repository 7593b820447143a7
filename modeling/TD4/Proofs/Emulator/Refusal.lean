/-
Refused while a run is going on.

A step, a reset and a run are refused if and only if a run is going on, and then
nothing at all is changed.  Everything else is let through at any time, and what waits
for a run or collects one leaves the emulator free.

* `Guards` says this of an emulator, whatever state it is in;
* `not_called`: the callback of a run that was refused is in nobody's hands;
* `refused_while_running` is the main statement, about any history of operations with
  the turns of the worker between them.
-/
import TD4.Proofs.Emulator.Callbacks

namespace TD4
namespace Emulator

variable {e next after : Emulator} {operation : Operation} {event : Event}
  {answer : Except Error (Option RunReport)}

/-! ### The guard -/

/-- No run is going on, and whatever needs that is let through. -/
structure Free (e : Emulator) : Prop where
  isRunning : e.isRunning = false
  step : e.step.1 ≠ .error .busy
  reset : e.reset.1 = .ok ()
  startRun : e.startRun.1 = .ok ()
  run : ∀ answer after, e.run = some (answer, after) → answer = .ok ()

/-- What is refused, and when. -/
structure Guards (e : Emulator) : Prop where
  step_iff : e.step.1 = .error .busy ↔ e.isRunning = true
  reset_iff : e.reset.1 = .error .busy ↔ e.isRunning = true
  startRun_iff : e.startRun.1 = .error .busy ↔ e.isRunning = true
  run_iff : (∃ after, e.run = some (.error .busy, after)) ↔ e.isRunning = true
  /-- What is refused leaves the machine, the settings, the run, the last report and
  the outcomes announced as they are. -/
  refused : e.isRunning = true → e.step = (.error .busy, e) ∧ e.reset = (.error .busy, e) ∧
    e.startRun = (.error .busy, e) ∧ e.run = some (.error .busy, e)
  /-- Nothing else is ever refused. -/
  others : ∀ (operation : Operation) answer after, operation.needsIdle = false →
    operation.apply e = some (answer, after) → ∃ report, answer = .ok report
  /-- An edit is made, and new settings are taken, whether a run is going on or not;
  the run is not touched. -/
  edit : ∀ f, ∃ after, (Operation.edit f).apply e = some (.ok none, after) ∧
    after.snapshot = f e.snapshot ∧ after.config = e.config ∧ after.active = e.active
  setConfig : ∀ config, ∃ after, (Operation.setConfig config).apply e = some (.ok none, after) ∧
    after.config = config ∧ after.snapshot = e.snapshot ∧ after.active = e.active
  stop : Free e.stop.2
  wait : ∀ report after, e.wait = some (report, after) → Free after
  step_free : e.step.1 ≠ .error .busy → Free e.step.2
  reset_free : e.reset.1 ≠ .error .busy → Free e.reset.2

theorem fst_step_eq_busy_iff (e : Emulator) : e.step.1 = .error .busy ↔ e.isRunning = true := by
  constructor
  · intro h
    by_contra hidle
    rw [Emulator.step, if_neg hidle] at h
    simp only [snapshot_collect] at h
    split at h <;> cases h
  · intro h
    rw [Emulator.step, if_pos h]

theorem fst_reset_eq_busy_iff (e : Emulator) : e.reset.1 = .error .busy ↔ e.isRunning = true := by
  constructor
  · intro h
    by_contra hidle
    rw [Emulator.reset, if_neg hidle] at h
    cases h
  · intro h
    rw [Emulator.reset, if_pos h]

theorem fst_startRun_eq_busy_iff (e : Emulator) :
    e.startRun.1 = .error .busy ↔ e.isRunning = true := by
  constructor
  · intro h
    by_contra hidle
    rw [startRun, if_neg hidle] at h
    cases h
  · intro h
    rw [startRun, if_pos h]

theorem ok_of_run {result : Except Error Unit} (hidle : e.isRunning = false)
    (h : e.run = some (result, after)) : result = .ok () :=
  (launched_of_run hidle h).1

theorem run_eq_busy_iff (e : Emulator) :
    (∃ after, e.run = some (.error .busy, after)) ↔ e.isRunning = true := by
  constructor
  · rintro ⟨after, h⟩
    by_contra hidle
    rw [Bool.not_eq_true] at hidle
    cases ok_of_run hidle h
  · exact fun h => ⟨e, run_of_running h⟩

theorem free_of_idle (h : e.isRunning = false) : Free e where
  isRunning := h
  step hbusy := by
    rw [(fst_step_eq_busy_iff e).mp hbusy] at h
    cases h
  reset := by rw [Emulator.reset, if_neg (by simp [h])]
  startRun := by rw [startRun_of_idle h]
  run _ _ := ok_of_run h

theorem free_of_no_run (h : e.active = none) : Free e :=
  free_of_idle (isRunning_of_active_eq_none h)

theorem active_of_wait {report : Option RunReport} (h : e.wait = some (report, after)) :
    after.active = none := by
  rw [Emulator.wait] at h
  split at h
  case h_1 hactive =>
    cases h
    exact hactive
  case h_2 =>
    cases h
    rfl
  case h_3 => cases h

theorem active_step (h : e.isRunning = false) : e.step.2.active = none := by
  rw [Emulator.step, if_neg (by simp [h])]
  simp only
  split <;> exact active_collect h

theorem active_reset (h : e.isRunning = false) : e.reset.2.active = none := by
  rw [Emulator.reset, if_neg (by simp [h])]
  exact active_collect h

theorem guards (e : Emulator) : Guards e where
  step_iff := fst_step_eq_busy_iff e
  reset_iff := fst_reset_eq_busy_iff e
  startRun_iff := fst_startRun_eq_busy_iff e
  run_iff := run_eq_busy_iff e
  refused h := by
    refine ⟨?_, ?_, startRun_of_running h, run_of_running h⟩
    · rw [Emulator.step, if_pos h]
    · rw [Emulator.reset, if_pos h]
  others operation answer after hneeds happly := by
    cases went happly with
    | refused _ hrefused => cases hneeds.symm.trans hrefused
    | stepFault => cases hneeds
    | _ => exact ⟨_, rfl⟩
  edit f := ⟨_, rfl, rfl, rfl, rfl⟩
  setConfig config := ⟨_, rfl, rfl, rfl, rfl⟩
  stop := free_of_no_run (active_stop e)
  wait _ _ h := free_of_no_run (active_of_wait h)
  step_free h := by
    have hidle : ¬ e.isRunning = true := fun hrunning => h ((fst_step_eq_busy_iff e).mpr hrunning)
    exact free_of_no_run (active_step (Bool.eq_false_iff.mpr hidle))
  reset_free h := by
    have hidle : ¬ e.isRunning = true := fun hrunning => h ((fst_reset_eq_busy_iff e).mpr hrunning)
    exact free_of_no_run (active_reset (Bool.eq_false_iff.mpr hidle))

/-! ### Callbacks are called by runs that were let through -/

namespace Observed

variable {t later : Observed} {k : Nat} {outcome : Option Fault}

/-- A callback was not called and will not be. -/
structure Lost (k : Nat) (t : Observed) : Prop where
  /-- It was given away, and is not given a second time. -/
  lt : k < t.asked
  held : t.held ≠ some k
  called : ∀ outcome, (k, outcome) ∉ t.called

theorem Lost.note (h : Lost k t) (event : Event) (answer : Except Error (Option RunReport))
    (next : Emulator) : Lost k (t.note event answer next) where
  lt := by
    simp only [Observed.note]
    split
    · exact Nat.lt_succ_of_lt h.lt
    · exact h.lt
  held := by
    simp only [Observed.note]
    split
    · intro heq
      exact h.lt.ne (Option.some_inj.mp heq).symm
    · split
      · exact h.held
      · exact (Option.some_ne_none k).symm
  called outcome hmem := by
    rcases List.mem_append.mp hmem with hbefore | hnow
    · exact h.called outcome hbefore
    · obtain ⟨callback, hheld, hcalled⟩ := List.mem_flatMap.mp hnow
      obtain ⟨_, -, heq⟩ := List.mem_map.mp hcalled
      cases heq
      exact h.held (Option.mem_toList.mp hheld)

/-- What holds of the callbacks in every history. -/
structure Accounted (t : Observed) : Prop where
  held : t.held.isSome = t.emulator.isRunning
  /-- Every outcome was announced by a call. -/
  called : t.called.map Prod.snd = t.emulator.shared.calls
  held_lt : ∀ k, t.held = some k → k < t.asked
  called_lt : ∀ k outcome, (k, outcome) ∈ t.called → k < t.asked

namespace Accounted

theorem start (cpu : Cpu) (config : RunConfig) : Accounted (start cpu config) where
  held := rfl
  called := rfl
  held_lt _ h := nomatch h
  called_lt _ _ h := nomatch h

/-- A run that is asked for is refused, or takes the callback. -/
theorem startRun (h : Accounted t) :
    Accounted (t.note (.host .run) (t.emulator.startRun.1.map fun _ => none)
      t.emulator.startRun.2) := by
  have hlt : ∀ k outcome, (k, outcome) ∈ t.called → k < t.asked + 1 := fun k outcome hmem =>
    Nat.lt_succ_of_lt (h.called_lt k outcome hmem)
  rcases hrunning : t.emulator.isRunning with _ | _
  · rw [startRun_of_idle hrunning]
    have hcalls : ({ t.emulator.collect with
        active := some (.waiting (.start t.emulator.config.maxSteps)) } : Emulator).shared.calls
        = t.emulator.shared.calls := congrArg Shared.calls (shared_collect t.emulator)
    show Accounted (t.note (.host .run) (.ok none) { t.emulator.collect with
      active := some (.waiting (.start t.emulator.config.maxSteps)) })
    rw [note_of_started hcalls]
    refine ⟨rfl, h.called.trans hcalls.symm, ?_, hlt⟩
    rintro k ⟨⟩
    exact Nat.lt_succ_self _
  · rw [startRun_of_running hrunning]
    show Accounted (t.note (.host .run) (.error .busy) t.emulator)
    rw [note_of_refused]
    exact ⟨h.held, h.called, fun k hk => Nat.lt_succ_of_lt (h.held_lt k hk), hlt⟩

/-- Any other event announces nothing, or is the call that was waited for. -/
theorem other (h : Accounted t) (htake : event.take t.emulator = some (answer, next))
    (hasks : event.asksForRun = false) : Accounted (t.note event answer next) := by
  rcases announcesEnd_take htake hasks with
    ⟨hcalls, hrunning⟩ | ⟨hrunning, outcome, hcalls, hidle⟩
  · rw [note_of_silent hasks hcalls]
    exact ⟨h.held.trans hrunning.symm, h.called.trans hcalls.symm, h.held_lt, h.called_lt⟩
  · obtain ⟨k, hk⟩ := Option.isSome_iff_exists.mp (h.held.trans hrunning)
    rw [note_of_call hasks hk hcalls]
    refine ⟨hidle.symm, ?_, (fun _ hnone => nomatch hnone), fun j told hmem => ?_⟩
    · show (t.called ++ [(k, outcome)]).map Prod.snd = next.shared.calls
      rw [List.map_append, h.called, hcalls]
      rfl
    · rcases List.mem_append.mp hmem with hbefore | hnow
      · exact h.called_lt j told hbefore
      · cases List.mem_singleton.mp hnow
        exact h.held_lt k hk

theorem note (h : Accounted t) (htake : event.take t.emulator = some (answer, next)) :
    Accounted (t.note event answer next) := by
  rcases hasks : event.asksForRun with _ | _
  · exact h.other htake hasks
  · obtain rfl := eq_of_asksForRun hasks
    cases htake
    exact h.startRun

end Accounted

theorem accounted_of_play {cpu : Cpu} {config : RunConfig} {events : List Event}
    (h : (start cpu config).play events = some t) : Accounted t :=
  play_induction (P := Accounted) (fun _ _ _ _ ht htake => ht.note htake) (.start cpu config) h

/-- The callback of a run that is refused is never called. -/
theorem not_called (h : Accounted t) (hrunning : t.emulator.isRunning = true)
    {more : List Event} (hplay : t.play (.host .run :: more) = some later) (outcome : Option Fault) :
    (t.asked, outcome) ∉ later.called := by
  rw [play, Event.take, startRun_of_running hrunning] at hplay
  -- the callback is given away with the refusal, and nobody holds it afterwards
  have hlost : Lost t.asked (t.note (.host .run) (.error .busy) t.emulator) := by
    rw [note_of_refused]
    refine ⟨Nat.lt_succ_self _, fun hheld => ?_, fun outcome hmem => ?_⟩
    · exact Nat.lt_irrefl _ (h.held_lt _ hheld)
    · exact Nat.lt_irrefl _ (h.called_lt _ _ hmem)
  have hkept : Lost t.asked later := play_induction (P := Lost t.asked)
    (fun t event answer next ht _ => ht.note event answer next) hlost hplay
  exact hkept.called outcome

end Observed

/-- **Refused while a run is going on, and only then.**  The guard is that of any
emulator.  Whatever happened before, with the turns of the worker wherever they fall,
all outcomes were announced by the callbacks of runs that were let through, and a run
that is refused now has a callback that is never called.  The states that operations
lead to on their own are among these. -/
theorem refused_while_running (cpu : Cpu) (config : RunConfig) :
    (∀ e : Emulator, Guards e) ∧
    (∀ events t, (Observed.start cpu config).play events = some t →
      t.called.map Prod.snd = t.emulator.shared.calls ∧
      (t.emulator.isRunning = true → ∀ more later outcome,
        t.play (.host .run :: more) = some later → (t.asked, outcome) ∉ later.called)) ∧
    ∀ history, ∃ events t, (Observed.start cpu config).play events = some t ∧
      t.emulator = (ofCpu cpu config).afterLog ((ofCpu cpu config).log history) := by
  refine ⟨guards, fun events t hplay => ?_, fun history => ?_⟩
  · have haccounted := Observed.accounted_of_play hplay
    exact ⟨haccounted.called, fun hrunning more later outcome hmore =>
      Observed.not_called haccounted hrunning hmore outcome⟩
  · obtain ⟨events, hevents⟩ := exists_play_log (e := ofCpu cpu config) rfl history
    obtain ⟨t, ht, hemulator⟩ :=
      Observed.exists_play (t := Observed.start cpu config) hevents
    exact ⟨events, t, ht, hemulator⟩

/-- A run without end has had two turns when a second one is asked for.  After one more
turn it is stopped, and the callback of the first run is the only one called. -/
theorem refused_while_running_endless :
    ∃ t later, (Observed.start (.ofImage [0xE0]) ⟨0, none, 0⟩).play [.host .run, .turn, .turn] = some t ∧
      t.emulator.isRunning = true ∧ t.emulator.step = (.error .busy, t.emulator) ∧
      t.play [.host .run, .turn, .host .stop] = some later ∧
      later.called = [(0, none)] ∧ t.asked = 1 ∧ ∀ outcome, (t.asked, outcome) ∉ later.called := by
  obtain ⟨hguards, hplayed, -⟩ := refused_while_running (.ofImage [0xE0]) ⟨0, none, 0⟩
  obtain ⟨t, ht, hrunning, later, hlater, hcalled, hasked⟩ :
      ∃ t, (Observed.start (.ofImage [0xE0]) ⟨0, none, 0⟩).play [.host .run, .turn, .turn] = some t ∧
        t.emulator.isRunning = true ∧
        ∃ later, t.play [.host .run, .turn, .host .stop] = some later ∧
          later.called = [(0, none)] ∧ t.asked = 1 :=
    ⟨_, rfl, by decide, _, rfl, by decide, by decide⟩
  exact ⟨t, later, ht, hrunning, ((hguards t.emulator).refused hrunning).1, hlater, hcalled, hasked,
    fun outcome => (hplayed _ _ ht).2 hrunning _ _ outcome hlater⟩

end Emulator
end TD4
