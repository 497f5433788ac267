/-
A timeline is a run.

`runFrom` looks ahead no further than to the next task that is due, and has fuel
for two events a task. `run_runFrom` follows it from any point of a run, by
induction on the fuel: every event is a step, and while there are tasks that have
not completed there is either room for another or one that is due.
-/
import PoolKeeper.FanOut.Clock
import PoolKeeper.Proofs.FanOut

namespace PoolKeeper.FanOut
variable {durations : List Nat} {limit : Nat} {events : List Event} {s s' : State}
  {due : List (Nat × Nat)}

theorem earliest?_eq_none_iff : earliest? due = none ↔ due = [] := by
  cases due with
  | nil => exact ⟨fun _ => rfl, fun _ => rfl⟩
  | cons d ds =>
    rw [earliest?]
    cases earliest? ds <;> simp

theorem mem_of_earliest? {d : Nat × Nat} (h : earliest? due = some d) : d ∈ due := by
  induction due generalizing d with
  | nil => cases h
  | cons d' ds ih =>
    rw [earliest?] at h
    cases he : earliest? ds with
    | none =>
      rw [he] at h
      cases h
      exact List.mem_cons_self
    | some e =>
      rw [he, Option.some.injEq] at h
      split at h
      · exact h ▸ List.mem_cons_of_mem d' (ih he)
      · exact h ▸ List.mem_cons_self

theorem Sound.nodup_inFlight {total : Nat} (h : Sound total limit events s) : s.inFlight.Nodup :=
  (h.tasks.nodup_iff.2 List.nodup_range).of_append_right

/-- What remains due when a task has completed. -/
theorem map_filter_perm_erase (h : s.inFlight.Nodup) (hdue : (due.map (·.1)).Perm s.inFlight)
    (task : Nat) : ((due.filter (·.1 ≠ task)).map (·.1)).Perm (s.inFlight.erase task) := by
  have hfilter : (due.filter (·.1 ≠ task)).map (·.1) = (due.map (·.1)).filter (· ≠ task) := by
    rw [List.filter_map]
    rfl
  rw [hfilter, h.erase_eq_filter]
  refine (hdue.filter _).trans (.of_eq (List.filter_congr fun t _ => ?_))
  by_cases ht : t = task <;> simp [ht]

theorem perm_erase_concat (tasks : List Nat) (task : Nat) :
    tasks.Perm ((tasks ++ [task]).erase task) := by
  have hmem : task ∈ tasks ++ [task] := List.mem_append_right _ List.mem_cons_self
  have hcons : (tasks ++ [task]).Perm (task :: tasks) := List.perm_append_singleton task tasks
  exact (List.perm_cons task).1 (hcons.symm.trans (List.perm_cons_erase hmem))

/-- From any point of a run on, a timeline is a run in which all tasks complete. -/
theorem run_runFrom (fuel now : Nat) (h : Run durations.length limit events s)
    (hdue : (due.map (·.1)).Perm s.inFlight) (hfuel : 2 * durations.length ≤ fuel + events.length) :
    ∃ s', Run durations.length limit
        (events ++ (runFrom durations limit fuel now due s).map (·.1)) s' ∧
      s'.completed.length = durations.length := by
  induction fuel generalizing now due events s with
  | zero =>
    have hnext := h.sound.next_le
    have hcount := h.sound.length_tasks
    have hevents := h.sound.length_events
    refine ⟨s, ?_, by omega⟩
    rwa [runFrom, List.map_nil, List.append_nil]
  | succ fuel ih =>
    rw [runFrom]
    dsimp only
    cases hlaunch : s.launch? durations.length limit with
    | some launched =>
      dsimp only
      have hrun := h.step (.launch hlaunch)
      obtain ⟨-, -, rfl⟩ := launch?_eq_some_iff.1 hlaunch
      split
      · -- the task takes no time, and completes at once
        have hmem : s.next ∈ s.inFlight ++ [s.next] := List.mem_append_right _ List.mem_cons_self
        have hcomplete : State.complete? s.next ⟨s.next + 1, s.inFlight ++ [s.next], s.completed⟩ =
            some ⟨s.next + 1, (s.inFlight ++ [s.next]).erase s.next, s.completed ++ [s.next]⟩ :=
          complete?_eq_some_iff.2 ⟨hmem, rfl⟩
        have hlater := ih now (hrun.step (.complete s.next hcomplete))
          (hdue.trans (perm_erase_concat _ _))
          (by simp only [List.length_append, List.length_singleton]; omega)
        rw [hcomplete]
        simpa using hlater
      · have hdue' : ((due ++ [(s.next, now + durations.getD s.next 0)]).map (·.1)).Perm
            (s.inFlight ++ [s.next]) := by
          simpa using hdue.append_right [s.next]
        have hlater := ih now hrun hdue'
          (by simp only [List.length_append, List.length_singleton]; omega)
        simpa using hlater
    | none =>
      dsimp only
      cases hfirst : earliest? due with
      | none =>
        -- nothing is in flight, so that there is room: all tasks have started
        rw [earliest?_eq_none_iff.1 hfirst] at hdue
        have hflight : s.inFlight = [] := List.nil_perm.1 hdue
        have hcount := h.sound.length_tasks
        have hnext := h.sound.next_le
        have hroom : ¬ (s.next < durations.length ∧ s.inFlight.length < room limit) := by
          rintro ⟨hlt, hfew⟩
          cases hlaunch.symm.trans (launch?_eq_some_iff.2 ⟨hlt, hfew, rfl⟩)
        rw [hflight, List.length_nil, room] at hroom
        rw [hflight, List.length_nil] at hcount
        refine ⟨s, ?_, by omega⟩
        simpa using h
      | some d =>
        obtain ⟨task, time⟩ := d
        have hmem : task ∈ s.inFlight :=
          hdue.mem_iff.1 (List.mem_map_of_mem (mem_of_earliest? hfirst))
        have hcomplete := complete?_eq_some_iff.2 ⟨hmem, rfl⟩
        have hlater := ih time (h.step (.complete task hcomplete))
          (map_filter_perm_erase h.sound.nodup_inFlight hdue task)
          (by simp only [List.length_append, List.length_singleton]; omega)
        dsimp only
        rw [hcomplete]
        simpa using hlater

/-- **A timeline is a run in which all tasks complete**, and its completions are an order in which
they may. -/
theorem timeline_run (durations : List Nat) (limit : Nat) :
    ∃ s, Run durations.length limit ((timeline durations limit).map (·.1)) s ∧
      s.completed = completions (timeline durations limit) ∧
      Completes durations.length limit (completions (timeline durations limit)) := by
  have hnone : (([] : List (Nat × Nat)).map (·.1)).Perm State.start.inFlight := .nil
  obtain ⟨s, hrun, hall⟩ := run_runFrom (2 * durations.length) 0
    (.start : Run durations.length limit [] .start) hnone (Nat.le_refl _)
  have hcompleted : s.completed = completions (timeline durations limit) := by
    rw [← hrun.sound.completed, List.nil_append, List.filterMap_map]
    rfl
  exact ⟨s, hrun, hcompleted, hcompleted ▸ hrun.sound.completes hall⟩

end PoolKeeper.FanOut
