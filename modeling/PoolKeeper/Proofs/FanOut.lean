/-
Runs of tasks with a bound on how many are in flight.

What holds at every point of a run, whatever completes when, is `Sound`: the
tasks that have started are the first ones in order, each of them is in flight
or has completed, and there is room for those in flight. A step keeps it, so
every run has it. Hence a run goes on until all tasks have completed, and the
order in which they did is one that `Completes` allows.

What has been collected by then is told by that order alone: the slots by which
tasks are in it (`getElem?_slots_ofOrder`), the failure by which comes first
(`failure_ofOrder`). So `collect` gives the outputs in task order when all tasks
succeeded (`collect_eq_ok_iff`), and else the failure of the failing task that
completed first (`collect_eq_error_iff`). `outcome_of_run` has all of this.
-/
import Mathlib.Data.List.Induction
import Mathlib.Data.List.Nodup
import PoolKeeper.FanOut

namespace PoolKeeper.FanOut

/-! ## What has been collected -/

section Collect
variable {ε α : Type} {results : List (Except ε α)} {outputs : List α} {order : List Nat} {e : ε}

/-- The failure of a task that failed. -/
def failureOf (results : List (Except ε α)) (task : Nat) : Option ε :=
  match results[task]? with
  | some (.error e) => some e
  | _ => none

theorem failureOf_eq_some_iff {task : Nat} :
    failureOf results task = some e ↔ results[task]? = some (.error e) := by
  rw [failureOf]
  split
  · rename_i e' h
    simp [h]
  · rename_i h
    exact iff_of_false nofun (h e)

theorem failureOf_eq_none_iff {task : Nat} :
    failureOf results task = none ↔ ∀ e, results[task]? ≠ some (.error e) := by
  simp only [Option.eq_none_iff_forall_ne_some, ne_eq, failureOf_eq_some_iff]

theorem ofOrder_concat (results : List (Except ε α)) (order : List Nat) (task : Nat) :
    Collected.ofOrder results (order ++ [task]) =
      results[task]?.elim (Collected.ofOrder results order)
        ((Collected.ofOrder results order).take task) := by
  rw [Collected.ofOrder, List.foldl_append]
  rfl

theorem length_slots_take (c : Collected ε α) (task : Nat) (r : Except ε α) :
    (c.take task r).slots.length = c.slots.length := by
  cases r with
  | ok a => exact List.length_set
  | error e => rfl

theorem length_slots_ofOrder (results : List (Except ε α)) (order : List Nat) :
    (Collected.ofOrder results order).slots.length = results.length := by
  induction order using List.reverseRecOn with
  | nil => exact List.length_replicate
  | append_singleton order last ih =>
    rw [ofOrder_concat]
    cases results[last]? with
    | none => exact ih
    | some r => exact (length_slots_take _ last r).trans ih

theorem getElem?_slots_take_other (c : Collected ε α) {task last : Nat} (h : task ≠ last)
    (r : Except ε α) : (c.take last r).slots[task]? = c.slots[task]? := by
  cases r with
  | ok a => exact List.getElem?_set_ne h.symm
  | error e => rfl

/-- The slot of a task is empty until the task has completed, and has its output then. -/
theorem getElem?_slots_ofOrder {task : Nat} {r : Except ε α} (hr : results[task]? = some r)
    (order : List Nat) :
    (Collected.ofOrder results order).slots[task]? =
      some (if task ∈ order then r.toOption else none) := by
  obtain ⟨hlt, -⟩ := List.getElem?_eq_some_iff.1 hr
  induction order using List.reverseRecOn with
  | nil => exact List.getElem?_replicate_of_lt hlt
  | append_singleton order last ih =>
    rw [ofOrder_concat]
    by_cases htask : task = last
    · subst htask
      rw [hr, Option.elim_some, if_pos (List.mem_append_right order List.mem_cons_self)]
      cases r with
      | ok a =>
        rw [← length_slots_ofOrder results order] at hlt
        exact List.getElem?_set_self hlt
      | error e => exact ih.trans (congrArg some (ite_self none))
    · have hmem : task ∈ order ++ [last] ↔ task ∈ order := by simp [htask]
      simp only [hmem]
      rw [← ih]
      cases results[last]? with
      | none => rfl
      | some r => exact getElem?_slots_take_other _ htask r

/-- The failure is that of the first failing task in the order. -/
theorem failure_ofOrder (results : List (Except ε α)) (order : List Nat) :
    (Collected.ofOrder results order).failure = order.findSome? (failureOf results) := by
  induction order using List.reverseRecOn with
  | nil => rfl
  | append_singleton order last ih =>
    rw [ofOrder_concat, List.findSome?_append, List.findSome?_singleton, ← ih]
    cases hlast : results[last]? with
    | none => simp [failureOf, hlast]
    | some r => cases r <;> simp [failureOf, hlast, Collected.take]

/-- **A run fails with the failure of the failing task that completed first.** -/
theorem collect_eq_error_iff : collect results order = .error e ↔
    ∃ before task after, order = before ++ task :: after ∧
      (∀ t ∈ before, ∀ e', results[t]? ≠ some (.error e')) ∧
      results[task]? = some (.error e) := by
  have hcollect : collect results order = .error e ↔
      (Collected.ofOrder results order).failure = some e := by
    rw [collect, Collected.result]
    cases (Collected.ofOrder results order).failure <;> simp
  rw [hcollect, failure_ofOrder, List.findSome?_eq_some_iff]
  simp only [failureOf_eq_some_iff, failureOf_eq_none_iff]
  constructor
  · rintro ⟨before, task, after, horder, hfailed, hbefore⟩
    exact ⟨before, task, after, horder, hbefore, hfailed⟩
  · rintro ⟨before, task, after, horder, hbefore, hfailed⟩
    exact ⟨before, task, after, horder, hfailed, hbefore⟩

/-- A failing run fails as one of its tasks did. -/
theorem mem_of_collect_eq_error (h : collect results order = .error e) : .error e ∈ results := by
  obtain ⟨before, task, after, -, -, hfailed⟩ := collect_eq_error_iff.1 h
  exact List.mem_of_getElem? hfailed

/-- A run that does not fail has no failing task in its order. -/
theorem not_failed_of_collect_eq_ok (h : collect results order = .ok outputs) :
    ∀ task ∈ order, ∀ e, results[task]? ≠ some (.error e) := by
  cases hfailure : (Collected.ofOrder results order).failure with
  | some e =>
    rw [collect, Collected.result, hfailure] at h
    cases h
  | none =>
    rw [failure_ofOrder, List.findSome?_eq_none_iff] at hfailure
    exact fun task htask => failureOf_eq_none_iff.1 (hfailure task htask)

theorem exists_outputs (h : ∀ e, .error e ∉ results) :
    ∃ outputs : List α, results = outputs.map .ok := by
  induction results with
  | nil => exact ⟨[], rfl⟩
  | cons r rs ih =>
    obtain ⟨outputs, rfl⟩ := ih fun e he => h e (List.mem_cons_of_mem r he)
    cases r with
    | ok a => exact ⟨a :: outputs, rfl⟩
    | error e => exact absurd List.mem_cons_self (h e)

/-- When all tasks have succeeded no output is lost, and none is in the slot of another. -/
theorem collect_of_outputs (outputs : List α)
    (h : ∀ task, task < outputs.length → task ∈ order) :
    collect (outputs.map .ok : List (Except ε α)) order = .ok outputs := by
  have hslots : (Collected.ofOrder (outputs.map .ok : List (Except ε α)) order).slots =
      outputs.map some := by
    refine List.ext_getElem? fun task => ?_
    rw [List.getElem?_map]
    cases ha : outputs[task]? with
    | none =>
      rw [List.getElem?_eq_none_iff] at ha
      rw [Option.map_none, List.getElem?_eq_none_iff, length_slots_ofOrder, List.length_map]
      exact ha
    | some a =>
      obtain ⟨hlt, -⟩ := List.getElem?_eq_some_iff.1 ha
      have hr : (outputs.map Except.ok : List (Except ε α))[task]? = some (.ok a) := by
        rw [List.getElem?_map, ha, Option.map_some]
      rw [getElem?_slots_ofOrder hr, if_pos (h task hlt)]
      rfl
  have hfailure :
      (Collected.ofOrder (outputs.map .ok : List (Except ε α)) order).failure = none := by
    rw [failure_ofOrder, List.findSome?_eq_none_iff]
    intro task _
    rw [failureOf_eq_none_iff]
    intro e he
    obtain ⟨a, -, ha⟩ := List.mem_map.1 (List.mem_of_getElem? he)
    cases ha
  rw [collect, Collected.result, hfailure, hslots]
  simp

/-- **A run succeeds when all of its tasks do**, with their outputs in the order of the tasks. -/
theorem collect_eq_ok_iff (h : order.Perm (List.range results.length)) :
    collect results order = .ok outputs ↔ results = outputs.map .ok := by
  have hall : ∀ task, task < results.length → task ∈ order := fun task hlt =>
    h.mem_iff.2 (List.mem_range.2 hlt)
  constructor
  · intro hok
    have hnone : ∀ e, .error e ∉ results := by
      intro e he
      obtain ⟨task, htask⟩ := List.getElem?_of_mem he
      obtain ⟨hlt, -⟩ := List.getElem?_eq_some_iff.1 htask
      exact not_failed_of_collect_eq_ok hok task (hall task hlt) e htask
    obtain ⟨outputs', rfl⟩ := exists_outputs hnone
    rw [List.length_map] at hall
    rw [collect_of_outputs outputs' hall] at hok
    rw [Except.ok.inj hok]
  · rintro rfl
    rw [List.length_map] at hall
    exact collect_of_outputs outputs hall

end Collect

/-! ## What happens in a run -/

section Run
variable {total limit : Nat} {events : List Event} {s s' : State} {e : Event}

theorem launch?_eq_some_iff : s.launch? total limit = some s' ↔
    s.next < total ∧ s.inFlight.length < room limit ∧
      s' = ⟨s.next + 1, s.inFlight ++ [s.next], s.completed⟩ := by
  rw [State.launch?]
  split
  · rename_i h
    simp [h, eq_comm]
  · rename_i h
    refine iff_of_false nofun fun h' => h ⟨h'.1, h'.2.1⟩

theorem complete?_eq_some_iff {task : Nat} : s.complete? task = some s' ↔
    task ∈ s.inFlight ∧ s' = ⟨s.next, s.inFlight.erase task, s.completed ++ [task]⟩ := by
  rw [State.complete?]
  split
  · rename_i h
    simp [h, eq_comm]
  · rename_i h
    exact iff_of_false nofun fun h' => h h'.1

/-- What holds at every point of a run. -/
structure Sound (total limit : Nat) (events : List Event) (s : State) : Prop where
  next_le : s.next ≤ total
  few : s.inFlight.length ≤ room limit
  /-- The first tasks have started, and each is in flight or has completed. -/
  tasks : (s.completed ++ s.inFlight).Perm (List.range s.next)
  /-- When a task completes, fewer than the limit of those before it are still out. -/
  bounded : ∀ k task, s.completed[k]? = some task → task < k + room limit
  started : events.filterMap Event.started? = List.range s.next
  completed : events.filterMap Event.completed? = s.completed
  length_events : events.length = s.next + s.completed.length

namespace Sound

theorem start : Sound total limit [] .start where
  next_le := Nat.zero_le total
  few := Nat.zero_le _
  tasks := .refl _
  bounded := nofun
  started := rfl
  completed := rfl
  length_events := rfl

variable (h : Sound total limit events s)
include h

theorem length_tasks : s.completed.length + s.inFlight.length = s.next := by
  rw [← List.length_append, h.tasks.length_eq, List.length_range]

/-- **A step keeps what holds.** -/
theorem step (hstep : Step total limit s e s') : Sound total limit (events ++ [e]) s' := by
  cases hstep with
  | launch hlaunch =>
    obtain ⟨hnext, hroom, rfl⟩ := launch?_eq_some_iff.1 hlaunch
    refine ⟨hnext, ?_, ?_, h.bounded, ?_, ?_, ?_⟩
    · rw [List.length_append]
      exact hroom
    · rw [List.range_succ, ← List.append_assoc]
      exact h.tasks.append_right [s.next]
    · rw [List.filterMap_append, h.started, List.range_succ]
      rfl
    · rw [List.filterMap_append, h.completed]
      exact List.append_nil _
    · rw [List.length_append, h.length_events]
      exact Nat.add_right_comm s.next s.completed.length 1
  | complete task hcomplete =>
    obtain ⟨hmem, rfl⟩ := complete?_eq_some_iff.1 hcomplete
    have herase : s.inFlight.Perm (task :: s.inFlight.erase task) := List.perm_cons_erase hmem
    refine ⟨h.next_le, ?_, ?_, ?_, ?_, ?_, ?_⟩
    · exact Nat.le_trans (List.length_erase_le ..) h.few
    · rw [List.append_assoc]
      exact (herase.symm.append_left s.completed).trans h.tasks
    · intro k t hk
      by_cases hlast : k < s.completed.length
      · rw [List.getElem?_append_left hlast] at hk
        exact h.bounded k t hk
      · rw [List.getElem?_append_right (Nat.not_lt.1 hlast), List.getElem?_singleton] at hk
        split at hk
        · cases hk
          have hstarted : task ∈ List.range s.next :=
            h.tasks.mem_iff.1 (List.mem_append_right _ hmem)
          have hcount := h.length_tasks
          have hfew := h.few
          rw [List.mem_range] at hstarted
          omega
        · cases hk
    · rw [List.filterMap_append, h.started]
      exact List.append_nil _
    · rw [List.filterMap_append, h.completed]
      rfl
    · rw [List.length_append, List.length_append, h.length_events]
      exact Nat.add_assoc s.next s.completed.length 1

/-- Where as many tasks have completed as there are, each of them has. -/
theorem completes (hall : s.completed.length = total) : Completes total limit s.completed := by
  have hcount := h.length_tasks
  have hnext := h.next_le
  have hnone : s.inFlight = [] := List.length_eq_zero_iff.1 (by omega)
  have htasks := h.tasks
  rw [hnone, List.append_nil, show s.next = total by omega] at htasks
  exact ⟨htasks, h.bounded⟩

/-- **A run can go on until all tasks have completed.** -/
theorem exists_step_iff :
    (∃ e s', Step total limit s e s') ↔ s.completed.length < total := by
  have hcount := h.length_tasks
  have hnext := h.next_le
  constructor
  · rintro ⟨e, s', hstep⟩
    cases hstep with
    | launch hlaunch =>
      obtain ⟨hlt, -, -⟩ := launch?_eq_some_iff.1 hlaunch
      omega
    | complete task hcomplete =>
      obtain ⟨hmem, -⟩ := complete?_eq_some_iff.1 hcomplete
      have hpos := List.length_pos_of_mem hmem
      omega
  · intro hlt
    cases hflight : s.inFlight with
    | nil =>
      -- nothing is in flight, so the next task waits and there is room for it
      rw [hflight, List.length_nil] at hcount
      have hroom : s.inFlight.length < room limit := by
        rw [hflight, room, List.length_nil]
        omega
      exact ⟨_, _, .launch (launch?_eq_some_iff.2 ⟨by omega, hroom, rfl⟩)⟩
    | cons task rest =>
      have hmem : task ∈ s.inFlight := hflight ▸ List.mem_cons_self
      exact ⟨_, _, .complete task (complete?_eq_some_iff.2 ⟨hmem, rfl⟩)⟩

end Sound

theorem Run.sound (h : Run total limit events s) : Sound total limit events s := by
  induction h with
  | start => exact .start
  | step _ hstep ih => exact ih.step hstep

/-- There is room for all tasks up to one that may complete next. -/
theorem Run.exists_launched (h : Run total limit events s) (n : Nat) (hn : n ≤ total)
    (hroom : n ≤ s.completed.length + room limit) :
    ∃ events' s', Run total limit events' s' ∧ s'.completed = s.completed ∧ n ≤ s'.next := by
  induction n with
  | zero => exact ⟨events, s, h, rfl, Nat.zero_le _⟩
  | succ n ih =>
    obtain ⟨events', s', hrun, hsame, hle⟩ := ih (by omega) (by omega)
    by_cases hlt : n < s'.next
    · exact ⟨events', s', hrun, hsame, hlt⟩
    · have hcount := hrun.sound.length_tasks
      rw [hsame] at hcount
      refine ⟨_, _, hrun.step (.launch (launch?_eq_some_iff.2 ⟨by omega, by omega, rfl⟩)), hsame,
        ?_⟩
      exact Nat.succ_le_succ hle

/-- **The orders in which tasks may complete are those of the runs**: a run in which all tasks
complete does so in such an order, and for each such order there is a run. -/
theorem completes_iff_exists_run {order : List Nat} :
    Completes total limit order ↔
      ∃ events s, Run total limit events s ∧ s.completed = order ∧ order.length = total := by
  constructor
  · intro h
    have hlength : order.length = total := by rw [h.all.length_eq, List.length_range]
    have hnodup : order.Nodup := h.all.nodup_iff.2 List.nodup_range
    -- one task of the order completes after the other
    have key : ∀ k, k ≤ order.length →
        ∃ events s, Run total limit events s ∧ s.completed = order.take k := by
      intro k hk
      induction k with
      | zero => exact ⟨[], .start, .start, rfl⟩
      | succ k ih =>
        obtain ⟨events, s, hrun, hsame⟩ := ih (by omega)
        have htask : order[k]? = some order[k] := List.getElem?_eq_getElem hk
        have hlt : order[k] < total :=
          List.mem_range.1 (h.all.mem_iff.1 (List.getElem_mem hk))
        have hbound := h.bounded k _ htask
        have hcompleted : s.completed.length = k := by
          rw [hsame, List.length_take]
          omega
        obtain ⟨events', s', hrun', hsame', hnext⟩ :=
          hrun.exists_launched (order[k] + 1) hlt (by omega)
        have hstarted : order[k] ∈ s'.completed ++ s'.inFlight :=
          hrun'.sound.tasks.mem_iff.2 (List.mem_range.2 hnext)
        have hflight : order[k] ∈ s'.inFlight := by
          refine (List.mem_append.1 hstarted).resolve_left fun hmem => ?_
          rw [hsame', hsame] at hmem
          obtain ⟨j, hj, hsame⟩ := List.mem_take_iff_getElem.1 hmem
          have hjk : j = k := hnodup.getElem_inj_iff.1 hsame
          omega
        refine ⟨_, _, hrun'.step (.complete _ (complete?_eq_some_iff.2 ⟨hflight, rfl⟩)), ?_⟩
        rw [hsame', hsame, List.take_add_one, htask]
        rfl
    obtain ⟨events, s, hrun, hsame⟩ := key order.length (Nat.le_refl _)
    exact ⟨events, s, hrun, hsame.trans (List.take_length), hlength⟩
  · rintro ⟨events, s, hrun, rfl, hall⟩
    exact hrun.sound.completes hall

end Run

/-! ## What comes of a run -/

/-- **A run with a bound on how many tasks are in flight.** At every point of it the tasks that have
started are the first ones, in order; at most as many as the limit, or one, are in flight; each
that has started is in flight or has completed, once. Any task in flight may complete next, and
whatever has failed, the run goes on until all have completed, in at most two steps a task. What
comes of it then is the outputs in task order if all tasks succeeded, and otherwise the failure of
the failing task that completed first. -/
theorem outcome_of_run {ε α : Type} {results : List (Except ε α)} {limit : Nat}
    {events : List Event} {s : State} (h : Run results.length limit events s) :
    events.filterMap Event.started? = List.range s.next ∧
    events.filterMap Event.completed? = s.completed ∧
    s.inFlight.length ≤ max limit 1 ∧
    (s.completed ++ s.inFlight).Perm (List.range s.next) ∧
    (∀ task ∈ s.inFlight, ∃ s', Step results.length limit s (.completed task) s') ∧
    ((∃ e s', Step results.length limit s e s') ↔ s.completed.length < results.length) ∧
    events.length ≤ 2 * results.length ∧
    (s.completed.length = results.length →
      s.completed.Perm (List.range results.length) ∧
      (∀ outputs, collect results s.completed = .ok outputs ↔ results = outputs.map .ok) ∧
      ∀ e, collect results s.completed = .error e ↔
        ∃ before task after, s.completed = before ++ task :: after ∧
          (∀ t ∈ before, ∀ e', results[t]? ≠ some (.error e')) ∧
          results[task]? = some (.error e)) := by
  have hsound := h.sound
  refine ⟨hsound.started, hsound.completed, hsound.few, hsound.tasks, fun task hmem => ?_,
    hsound.exists_step_iff, ?_, fun hall => ?_⟩
  · exact ⟨_, .complete task (complete?_eq_some_iff.2 ⟨hmem, rfl⟩)⟩
  · have hcount := hsound.length_tasks
    have hnext := hsound.next_le
    rw [hsound.length_events]
    omega
  · have hcompletes := hsound.completes hall
    exact ⟨hcompletes.all, fun outputs => collect_eq_ok_iff hcompletes.all,
      fun e => collect_eq_error_iff⟩

/-- Four tasks, two at a time. The second fails before the fourth, so its failure decides; the
outputs of the first and the third are discarded. -/
theorem second_of_four_fails_first :
    let results : List (Except String Nat) := [.ok 10, .error "first", .ok 12, .error "later"]
    let events : List Event := [.started 0, .started 1, .completed 1, .started 2, .completed 2,
      .started 3, .completed 3, .completed 0]
    Run results.length 2 events ⟨4, [], [1, 2, 3, 0]⟩ ∧
      events.filterMap Event.started? = [0, 1, 2, 3] ∧
      collect results [1, 2, 3, 0] = .error "first" := by
  intro results events
  have two := (Run.start.step (.launch rfl : Step 4 2 .start _ ⟨1, [0], []⟩)).step
    (.launch rfl : Step 4 2 _ _ ⟨2, [0, 1], []⟩)
  have three := (two.step (.complete 1 rfl : Step 4 2 _ _ ⟨2, [0], [1]⟩)).step
    (.launch rfl : Step 4 2 _ _ ⟨3, [0, 2], [1]⟩)
  have four := (three.step (.complete 2 rfl : Step 4 2 _ _ ⟨3, [0], [1, 2]⟩)).step
    (.launch rfl : Step 4 2 _ _ ⟨4, [0, 3], [1, 2]⟩)
  have hrun : Run results.length 2 events ⟨4, [], [1, 2, 3, 0]⟩ :=
    (four.step (.complete 3 rfl : Step 4 2 _ _ ⟨4, [0], [1, 2, 3]⟩)).step
      (.complete 0 rfl : Step 4 2 _ _ ⟨4, [], [1, 2, 3, 0]⟩)
  obtain ⟨hstarted, -, -, -, -, -, -, hend⟩ := outcome_of_run hrun
  exact ⟨hrun, hstarted, ((hend rfl).2.2 "first").2 ⟨[], 1, [2, 3, 0], rfl, nofun, rfl⟩⟩

end PoolKeeper.FanOut
