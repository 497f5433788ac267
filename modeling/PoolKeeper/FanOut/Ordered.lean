/-
Tasks whose results are taken in the order of the tasks.

As in any fan-out tasks start in their order and may complete in another. But a
task that has completed is out until all before it have been taken, and the
first failure that is taken ends the run: no task starts after it, and those
that are out are dropped.
-/
import PoolKeeper.FanOut

namespace PoolKeeper.FanOut.Ordered

/-- Tasks by their numbers: those from `next` on wait, those before `taken` have been taken, and
all others are out. Some have completed, in the order given. -/
structure State where
  next : Nat
  completed : List Nat
  taken : Nat
  deriving DecidableEq

/-- What happens in a run. -/
inductive Event where
  | started (task : Nat)
  | completed (task : Nat)
  | taken (task : Nat)
  deriving DecidableEq

namespace Event

/-- The task that has started. -/
def started? : Event → Option Nat
  | started task => some task
  | _ => none

end Event

namespace State
variable {ε α : Type}

def start : State := ⟨0, [], 0⟩

/-- The results that have been taken. -/
def results (all : List (Except ε α)) (s : State) : List (Except ε α) := all.take s.taken

/-- A failure has been taken, or everything has. -/
def Over (all : List (Except ε α)) (s : State) : Prop :=
  (∃ e, .error e ∈ s.results all) ∨ s.taken = all.length

/-- What has come of the results that were taken: the outputs, or the failure among them. -/
def outcome (all : List (Except ε α)) (s : State) : Except ε (List α) := (s.results all).mapM id

end State

/-- One step of a run of tasks with results, and what happens in it. -/
inductive Step {ε α : Type} (all : List (Except ε α)) (limit : Nat) :
    State → Event → State → Prop where
  | launch {s} (hgoing : ¬ s.Over all) (hnext : s.next < all.length)
    (hroom : s.next < s.taken + room limit) :
    Step all limit s (.started s.next) { s with next := s.next + 1 }
  | complete {s} (task : Nat) (hgoing : ¬ s.Over all) (hstarted : task < s.next)
    (hout : task ∉ s.completed) :
    Step all limit s (.completed task) { s with completed := s.completed ++ [task] }
  | take {s} (hgoing : ¬ s.Over all) (hready : s.taken ∈ s.completed) :
    Step all limit s (.taken s.taken) { s with taken := s.taken + 1 }

/-- What has happened since the start of a run, and the state that it has come to. -/
inductive Run {ε α : Type} (all : List (Except ε α)) (limit : Nat) :
    List Event → State → Prop where
  | start : Run all limit [] .start
  | step {events s e s'} (h : Run all limit events s) (hstep : Step all limit s e s') :
    Run all limit (events ++ [e]) s'

end PoolKeeper.FanOut.Ordered
