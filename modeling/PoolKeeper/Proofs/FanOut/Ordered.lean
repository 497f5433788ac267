/-
Runs of tasks whose results are taken in order.

What holds at every point of a run is `Sound`: the tasks that have started are
the first ones, and so are those whose results have been taken; the others have
room. A step keeps it. So a run can go on until it is over, it has at most three
steps a task, and what comes of it is what the results come to one after the
other, whatever completed when (`come_of_run`).
-/
import Mathlib.Data.List.Nodup
import Mathlib.Data.List.Perm.Subperm
import PoolKeeper.FanOut.Ordered

namespace PoolKeeper.FanOut.Ordered

variable {ε α : Type} {all : List (Except ε α)} {limit : Nat} {events : List Event} {s s' : State}
  {e : Event} {e' : ε}

/-! ## What results come to -/

theorem mapM_id_eq_ok_iff {outputs : List α} :
    all.mapM id = .ok outputs ↔ all = outputs.map .ok := by
  induction all generalizing outputs with
  | nil => cases outputs <;> simp [pure, Except.pure]
  | cons r all ih =>
    rw [List.mapM_cons]
    cases r with
    | error e => cases outputs <;> simp [bind, Except.bind]
    | ok a =>
      cases hrest : all.mapM id with
      | error e =>
        refine iff_of_false nofun fun hall => ?_
        cases outputs with
        | nil => cases hall
        | cons b outputs =>
          rw [ih.2 (List.cons.inj hall).2] at hrest
          cases hrest
      | ok rest =>
        obtain rfl := ih.1 hrest
        cases outputs with
        | nil => exact iff_of_false nofun nofun
        | cons b outputs =>
          have hinj : (rest.map .ok : List (Except ε α)) = outputs.map .ok ↔ rest = outputs :=
            (List.map_injective_iff.2 fun _ _ => Except.ok.inj).eq_iff
          simp [bind, Except.bind, pure, Except.pure, hinj]

/-- A failure hides what follows it. -/
theorem mapM_id_append_of_error (h : all.mapM id = .error e') (after : List (Except ε α)) :
    (all ++ after).mapM id = .error e' := by
  rw [List.mapM_append, h]
  rfl

/-- **Results come to the first failure among them**, if there is one. -/
theorem mapM_id_eq_error_iff : all.mapM id = .error e' ↔
    ∃ (before : List α) (after : List (Except ε α)),
      all = before.map .ok ++ .error e' :: after := by
  constructor
  · intro h
    induction all with
    | nil => cases h
    | cons r all ih =>
      rw [List.mapM_cons] at h
      cases r with
      | error e =>
        cases h
        exact ⟨[], all, rfl⟩
      | ok a =>
        cases hrest : all.mapM id with
        | ok rest =>
          rw [hrest] at h
          cases h
        | error e =>
          rw [hrest] at h
          cases h
          obtain ⟨before, after, rfl⟩ := ih hrest
          exact ⟨a :: before, after, rfl⟩
  · rintro ⟨before, after, rfl⟩
    rw [List.mapM_append, mapM_id_eq_ok_iff.2 rfl, List.mapM_cons]
    rfl

theorem exists_error_iff : (∃ e, all.mapM id = .error e) ↔ ∃ e, .error e ∈ all := by
  constructor
  · rintro ⟨e, he⟩
    obtain ⟨before, after, rfl⟩ := mapM_id_eq_error_iff.1 he
    exact ⟨e, by simp⟩
  · rintro ⟨e, he⟩
    cases hall : all.mapM id with
    | error e' => exact ⟨e', rfl⟩
    | ok outputs =>
      rw [mapM_id_eq_ok_iff.1 hall] at he
      simp at he

/-! ## Runs -/

/-- What holds at every point of a run. -/
structure Sound (all : List (Except ε α)) (limit : Nat) (events : List Event) (s : State) :
    Prop where
  next_le : s.next ≤ all.length
  room : s.next ≤ s.taken + FanOut.room limit
  completed_lt : ∀ task ∈ s.completed, task < s.next
  nodup_completed : s.completed.Nodup
  taken_le : s.taken ≤ s.next
  started : events.filterMap Event.started? = List.range s.next
  length_events : events.length = s.next + s.completed.length + s.taken

namespace Sound

theorem start : Sound all limit [] .start where
  next_le := Nat.zero_le _
  room := Nat.zero_le _
  completed_lt := nofun
  nodup_completed := .nil
  taken_le := Nat.zero_le _
  started := rfl
  length_events := rfl

variable (h : Sound all limit events s)
include h

/-- **A step keeps what holds.** -/
theorem step (hstep : Step all limit s e s') : Sound all limit (events ++ [e]) s' := by
  cases hstep with
  | launch hgoing hnext hroom =>
    refine ⟨hnext, hroom, fun task htask => ?_, h.nodup_completed, ?_, ?_, ?_⟩
    · exact Nat.lt_succ_of_lt (h.completed_lt task htask)
    · exact Nat.le_succ_of_le h.taken_le
    · rw [List.filterMap_append, h.started, List.range_succ]
      rfl
    · have hcount := h.length_events
      show (events ++ [_]).length = s.next + 1 + s.completed.length + s.taken
      rw [List.length_append, List.length_singleton]
      omega
  | complete task hgoing hstarted hout =>
    refine ⟨h.next_le, h.room, ?_, ?_, h.taken_le, ?_, ?_⟩
    · intro t ht
      obtain ht | rfl := List.mem_append.1 ht |>.imp_right List.mem_singleton.1
      · exact h.completed_lt t ht
      · exact hstarted
    · have hnodup := h.nodup_completed.concat hout
      rwa [List.concat_eq_append] at hnodup
    · rw [List.filterMap_append, h.started]
      exact List.append_nil _
    · have hcount := h.length_events
      show (events ++ [_]).length = s.next + (s.completed ++ [task]).length + s.taken
      rw [List.length_append, List.length_append, List.length_singleton, List.length_singleton]
      omega
  | take hgoing hready =>
    have hstarted := h.completed_lt _ hready
    refine ⟨h.next_le, ?_, h.completed_lt, h.nodup_completed, hstarted, ?_, ?_⟩
    · exact Nat.le_trans h.room (Nat.add_le_add_right (Nat.le_succ _) _)
    · rw [List.filterMap_append, h.started]
      exact List.append_nil _
    · rw [List.length_append, h.length_events, List.length_singleton]
      exact Nat.add_assoc ..

/-- **A run can go on until it is over.** -/
theorem exists_step_iff : (∃ e s', Step all limit s e s') ↔ ¬ s.Over all := by
  constructor
  · rintro ⟨e, s', hstep⟩
    cases hstep with
    | launch hgoing => exact hgoing
    | complete _ hgoing => exact hgoing
    | take hgoing => exact hgoing
  · intro hgoing
    have hleft : s.taken ≠ all.length := fun hall => hgoing (.inr hall)
    have hle := Nat.le_trans h.taken_le h.next_le
    by_cases hready : s.taken ∈ s.completed
    · exact ⟨_, _, .take hgoing hready⟩
    · by_cases hout : s.taken < s.next
      · exact ⟨_, _, .complete s.taken hgoing hout hready⟩
      · -- all that have started have been taken, so there is room for one more
        have htaken := h.taken_le
        exact ⟨_, _, .launch hgoing (by omega) (by rw [FanOut.room]; omega)⟩

theorem length_events_le : events.length ≤ 3 * all.length := by
  have hsubset : s.completed ⊆ List.range s.next := fun task htask =>
    List.mem_range.2 (h.completed_lt task htask)
  have hcompleted := (List.subperm_of_subset h.nodup_completed hsubset).length_le
  rw [List.length_range] at hcompleted
  have hnext := h.next_le
  have htaken := h.taken_le
  rw [h.length_events]
  omega

end Sound

theorem Run.sound (h : Run all limit events s) : Sound all limit events s := by
  induction h with
  | start => exact .start
  | step _ hstep ih => exact ih.step hstep

/-- What is left out when a run is over would not have mattered. -/
theorem outcome_of_over (hover : s.Over all) : s.outcome all = all.mapM id := by
  rcases hover with hfailed | hall
  · obtain ⟨e, he⟩ := exists_error_iff.2 hfailed
    rw [State.outcome, he, ← List.take_append_drop s.taken all]
    exact (mapM_id_append_of_error he _).symm
  · rw [State.outcome, State.results, hall, List.take_length]

/-- If no failure has been taken by the end of a run, all tasks have started. -/
theorem Sound.next_of_over (h : Sound all limit events s) (hover : s.Over all) {outputs : List α}
    (hok : s.outcome all = .ok outputs) : s.next = all.length := by
  rcases hover with hfailed | hall
  · obtain ⟨e, he⟩ := exists_error_iff.2 hfailed
    rw [State.outcome, he] at hok
    cases hok
  · exact Nat.le_antisymm h.next_le (hall ▸ h.taken_le)

/-- **A run comes to its end**, as it can go on until then and has just so many steps. -/
theorem exists_over (all : List (Except ε α)) (limit : Nat) :
    ∃ events s, Run all limit events s ∧ s.Over all := by
  -- by induction on the number of steps that may still come
  have hend (left : Nat) : ∀ events s, Run all limit events s →
      3 * all.length ≤ events.length + left → ∃ events s, Run all limit events s ∧ s.Over all := by
    induction left with
    | zero =>
      intro events s h hleft
      refine ⟨events, s, h, by_contra fun hgoing => ?_⟩
      obtain ⟨e, s', hstep⟩ := h.sound.exists_step_iff.2 hgoing
      have hle := (h.step hstep).sound.length_events_le
      rw [List.length_append, List.length_singleton] at hle
      omega
    | succ left ih =>
      intro events s h hleft
      by_cases hover : s.Over all
      · exact ⟨events, s, h, hover⟩
      · obtain ⟨e, s', hstep⟩ := h.sound.exists_step_iff.2 hover
        refine ih _ _ (h.step hstep) ?_
        rw [List.length_append, List.length_singleton]
        omega
  exact hend _ _ _ .start (Nat.le_add_left _ _)

/-- **What comes of a run does not depend on what completes when.** At every point of it the first
tasks have started, in order, and at most as many as the limit, or one, have not been taken yet. It
goes on until a failure or the last result has been taken, in at most three steps a task. What comes
of it is the outputs in task order if all tasks succeeded, and otherwise the failure of the first
task that failed. -/
theorem come_of_run (h : Run all limit events s) :
    events.filterMap Event.started? = List.range s.next ∧
    s.next ≤ s.taken + max limit 1 ∧
    ((∃ e s', Step all limit s e s') ↔ ¬ s.Over all) ∧
    events.length ≤ 3 * all.length ∧
    (s.Over all →
      (∀ outputs, s.outcome all = .ok outputs ↔ all = outputs.map .ok) ∧
      ∀ e, s.outcome all = .error e ↔ ∃ (before : List α) (after : List (Except ε α)),
        all = before.map .ok ++ .error e :: after) := by
  have hsound := h.sound
  refine ⟨hsound.started, hsound.room, hsound.exists_step_iff, hsound.length_events_le,
    fun hover => ?_⟩
  rw [outcome_of_over hover]
  exact ⟨fun _ => mapM_id_eq_ok_iff, fun _ => mapM_id_eq_error_iff⟩

end PoolKeeper.FanOut.Ordered
