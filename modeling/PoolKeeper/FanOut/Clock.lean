/-
A fan-out on a clock: every task takes a known time from its start, and the
run is as eager as it can be. Of several tasks in flight the one that is due
first completes next.
-/
import PoolKeeper.FanOut

namespace PoolKeeper.FanOut

/-- Of tasks with the times they are due at, the one due first. -/
def earliest? : List (Nat × Nat) → Option (Nat × Nat)
  | [] => none
  | d :: ds =>
    match earliest? ds with
    | some e => some (if e.2 < d.2 then e else d)
    | none => some d

/-- What happens from a state on, `due` giving for the tasks in flight when
they end. A task that takes no time completes before another starts. -/
def runFrom (durations : List Nat) (limit : Nat) :
    (fuel : Nat) → (now : Nat) → (due : List (Nat × Nat)) → State → List (Event × Nat)
  | 0, _, _, _ => []
  | fuel + 1, now, due, s =>
    let complete (task now : Nat) (due : List (Nat × Nat)) (s : State) :=
      match s.complete? task with
      | some s => (.completed task, now) :: runFrom durations limit fuel now due s
      | none => []
    match s.launch? durations.length limit with
    | some s' =>
      let duration := durations.getD s.next 0
      let event := (Event.started s.next, now)
      if duration = 0 then event :: complete s.next now due s'
      else event :: runFrom durations limit fuel now (due ++ [(s.next, now + duration)]) s'
    | none =>
      match earliest? due with
      | some (task, time) => complete task time (due.filter (·.1 ≠ task)) s
      | none => []

/-- All that happens in a run of tasks with given durations. -/
def timeline (durations : List Nat) (limit : Nat) : List (Event × Nat) :=
  runFrom durations limit (2 * durations.length) 0 [] .start

/-- The order in which the tasks of a timeline complete. -/
def completions (events : List (Event × Nat)) : List Nat :=
  events.filterMap fun e => e.1.completed?

end PoolKeeper.FanOut
