/-
Running many tasks with a bound on how many are in flight.

Tasks start in their order, and any task in flight may be the next to
complete. A failing task stops no other; when all have completed, the failure
that came first decides, and without one the outputs stand in task order.
`Step` is the relation between states of such a run, `collect` what comes of it.
-/
namespace PoolKeeper.FanOut

/-- How many tasks may be in flight under a limit: at least one. -/
def room (limit : Nat) : Nat := max limit 1

/-- Tasks by their numbers: those from `next` on wait, those in flight have
started, and the others have completed, in the order given. -/
structure State where
  next : Nat
  inFlight : List Nat
  completed : List Nat
  deriving DecidableEq

namespace State

def start : State := ⟨0, [], []⟩

/-- The next waiting task starts, if there is one and room for it. -/
def launch? (total limit : Nat) (s : State) : Option State :=
  if s.next < total ∧ s.inFlight.length < room limit then
    some { s with next := s.next + 1, inFlight := s.inFlight ++ [s.next] }
  else none

/-- A task in flight completes. -/
def complete? (task : Nat) (s : State) : Option State :=
  if task ∈ s.inFlight then
    some { s with inFlight := s.inFlight.erase task, completed := s.completed ++ [task] }
  else none

end State

/-- What happens in a run. -/
inductive Event where
  | started (task : Nat)
  | completed (task : Nat)
  deriving DecidableEq

namespace Event

/-- The task that has started. -/
def started? : Event → Option Nat
  | started task => some task
  | completed _ => none

/-- The task that has completed. -/
def completed? : Event → Option Nat
  | started _ => none
  | completed task => some task

end Event

/-- One step of a run of `total` tasks, and what happens in it. -/
inductive Step (total limit : Nat) : State → Event → State → Prop where
  | launch {s s'} (h : s.launch? total limit = some s') : Step total limit s (.started s.next) s'
  | complete {s s'} (task : Nat) (h : s.complete? task = some s') :
    Step total limit s (.completed task) s'

/-- What has happened since the start of a run, and the state that it has come to. -/
inductive Run (total limit : Nat) : List Event → State → Prop where
  | start : Run total limit [] .start
  | step {events s e s'} (h : Run total limit events s) (hstep : Step total limit s e s') :
    Run total limit (events ++ [e]) s'

/-- What has been collected of a run: the outputs of the tasks that have
succeeded, each in the slot of its task, and the failure that came first. -/
structure Collected (ε α : Type) where
  slots : List (Option α)
  failure : Option ε

namespace Collected
variable {ε α : Type}

/-- An empty slot for every task. -/
def start (total : Nat) : Collected ε α := ⟨List.replicate total none, none⟩

/-- Takes in what came of a task. A failure after another one is discarded. -/
def take (c : Collected ε α) (task : Nat) : Except ε α → Collected ε α
  | .ok a => { c with slots := c.slots.set task (some a) }
  | .error e => { c with failure := c.failure.or (some e) }

/-- What comes of the run: its failure, else what is in the slots. -/
def result (c : Collected ε α) : Except ε (List α) :=
  match c.failure with
  | some e => .error e
  | none => .ok (c.slots.filterMap id)

/-- What has been collected once some tasks have completed, in an order. -/
def ofOrder (results : List (Except ε α)) (order : List Nat) : Collected ε α :=
  order.foldl (fun c task => results[task]?.elim c (c.take task)) (start results.length)

end Collected

/-- What comes of a run whose tasks completed in an order: the failure that
came first, else the outputs in task order. -/
def collect {ε α : Type} (results : List (Except ε α)) (order : List Nat) : Except ε (List α) :=
  (Collected.ofOrder results order).result

/-- All of `total` tasks complete in the order, under the limit: whichever is
the next to complete, fewer than the limit of those before it are still out. -/
structure Completes (total limit : Nat) (order : List Nat) : Prop where
  all : order.Perm (List.range total)
  bounded : ∀ k i, order[k]? = some i → i < k + room limit

/-- For every number of tasks, an order in which they complete under a limit. -/
structure Schedule (limit : Nat) where
  order : (total : Nat) → List Nat
  completes : ∀ total, Completes total limit (order total)

/-- Every task completes before any later one. -/
def Schedule.inOrder (limit : Nat) : Schedule limit where
  order := List.range
  completes total :=
    { all := List.Perm.refl _
      bounded := by
        intro k i h
        have := List.getElem?_eq_some_iff.1 h
        obtain ⟨hk, rfl⟩ := this
        simp only [List.getElem_range, room]
        omega }

end PoolKeeper.FanOut
