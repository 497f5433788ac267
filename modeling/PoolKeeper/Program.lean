/-
Programs that ask their surroundings for something, wait for the reply and go
on. What may be asked, and the type of each reply, is an `Interface`; a program
over one is data, so it can be run against a chain held in memory, against a
real endpoint, or followed call by call in a proof.

`run_bind` says that running a program in two parts is running it whole, and
`run_run` that it does not matter where the calls of those who answer are
answered.
-/
namespace PoolKeeper

/-- What may be asked, and what kind of reply each call has. -/
structure Interface where
  Call : Type
  Reply : Call → Type

namespace Interface

/-- Calls of either of two interfaces. -/
def sum (I J : Interface) : Interface where
  Call := I.Call ⊕ J.Call
  Reply
    | .inl c => I.Reply c
    | .inr c => J.Reply c

end Interface

/-- A program that ends with a value, or asks and goes on with the reply. -/
inductive Program (I : Interface) (α : Type) where
  | done (a : α)
  | ask (c : I.Call) (next : I.Reply c → Program I α)

namespace Program
variable {I J : Interface} {α β γ : Type}

def bind : Program I α → (α → Program I β) → Program I β
  | .done a, f => f a
  | .ask c next, f => .ask c fun r => (next r).bind f

instance : Monad (Program I) where
  pure := .done
  bind := bind

/-- Asks one thing and ends with the reply. -/
def call (c : I.Call) : Program I (I.Reply c) := .ask c .done

theorem pure_def (a : α) : (pure a : Program I α) = .done a := rfl

@[simp] theorem done_bind (a : α) (f : α → Program I β) : Program.done a >>= f = f a := rfl

@[simp] theorem ask_bind (c : I.Call) (next : I.Reply c → Program I α) (f : α → Program I β) :
    Program.ask c next >>= f = .ask c fun r => next r >>= f := rfl

theorem bind_done (p : Program I α) : p.bind .done = p := by
  induction p with
  | done a => rfl
  | ask c next ih => simp only [bind, ih]

theorem bind_assoc (p : Program I α) (f : α → Program I β) (g : β → Program I γ) :
    (p.bind f).bind g = p.bind fun a => (f a).bind g := by
  induction p with
  | done a => rfl
  | ask c next ih => simp only [bind, ih]

instance : LawfulMonad (Program I) :=
  LawfulMonad.mk' (Program I) bind_done (fun _ _ => rfl) bind_assoc

/-- Runs a program, with every call answered in a monad. -/
def run {m : Type → Type} [Monad m] (answer : (c : I.Call) → m (I.Reply c)) :
    Program I α → m α
  | .done a => pure a
  | .ask c next => do (next (← answer c)).run answer

section Run
variable {m : Type → Type} [Monad m] (answer : (c : I.Call) → m (I.Reply c))

@[simp] theorem run_done (a : α) : (Program.done a).run answer = pure a := rfl

@[simp] theorem run_pure (a : α) : (pure a : Program I α).run answer = pure a := rfl

variable [LawfulMonad m]

@[simp] theorem run_call (c : I.Call) : (call c).run answer = answer c := by
  simp [call, run]

theorem run_bind (p : Program I α) (f : α → Program I β) :
    (p >>= f).run answer = p.run answer >>= fun a => (f a).run answer := by
  induction p with
  | done a => simp
  | ask c next ih => simp [run, ih]

/-- Calls that are answered by programs, whose own calls are answered in a monad. -/
theorem run_run (below : (c : I.Call) → Program J (I.Reply c))
    (answer : (c : J.Call) → m (J.Reply c)) (p : Program I α) :
    (p.run below).run answer = p.run fun c => (below c).run answer := by
  induction p with
  | done a => rfl
  | ask c next ih =>
    rw [run, run, run_bind]
    simp only [ih]

end Run

/-- The end of a program and the calls it has made, replies being given by a function. -/
def trace (answer : (c : I.Call) → I.Reply c) : Program I α → α × List I.Call
  | .done a => (a, [])
  | .ask c next =>
    let (a, cs) := (next (answer c)).trace answer
    (a, c :: cs)

/-- The program as part of one that may ask more. -/
def onLeft (p : Program I α) : Program (I.sum J) α :=
  p.run fun c => call (I := I.sum J) (.inl c)

def onRight (p : Program J α) : Program (I.sum J) α :=
  p.run fun c => call (I := I.sum J) (.inr c)

end Program

/-- A program that may fail. -/
abbrev Attempt (I : Interface) (ε α : Type) := ExceptT ε (Program I) α

namespace Attempt
variable {I J : Interface} {ε ε' α : Type}

/-- The attempt that ends as the program does. -/
def ofOutcome (p : Program I (Except ε α)) : Attempt I ε α := ExceptT.mk p

/-- The attempt that asks nothing. -/
def ofExcept (r : Except ε α) : Attempt I ε α := ExceptT.mk (pure r)

/-- The failure seen from further away. -/
def mapError (f : ε → ε') (p : Attempt I ε α) : Attempt I ε' α :=
  ExceptT.mk ((fun r => r.mapError f) <$> p.run)

def onLeft (p : Attempt I ε α) : Attempt (I.sum J) ε α := ExceptT.mk (Program.onLeft p.run)

def onRight (p : Attempt J ε α) : Attempt (I.sum J) ε α := ExceptT.mk (Program.onRight p.run)

/-- What comes of the attempt, a failure being one of the outcomes. -/
def outcome (p : Attempt I ε α) : Program I (Except ε α) := p.run

end Attempt
end PoolKeeper
