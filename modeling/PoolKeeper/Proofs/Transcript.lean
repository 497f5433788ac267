/-
What is said in the runs of a program: its calls, each with the reply to it.

`Program.Runs p log a` holds of every run there can be, whoever replies: `log`
is said in it and `a` comes of it. `runs_bind` opens a run of a program in two
parts, so what a program may say is found part by part. A run in surroundings
that note what is said is one of these runs (`runs_runIn`), as there is one in any
surroundings (`exists_runs`), and replies to calls that are not made do not matter to
it (`runIn_recording_congr`). Where calls are answered by
programs, `runs_run` takes a run apart into what was said for each call. `Orderly` is
for what may be said at a point, all that was said before it being known.
-/
import PoolKeeper.Proofs.Surroundings

namespace PoolKeeper

/-- A call and the reply to it. -/
abbrev Exchange (I : Interface) : Type := (c : I.Call) × I.Reply c

namespace Exchange
variable {I J : Interface}

/-- What is said with the left of two surroundings. -/
def left (x : Exchange I) : Exchange (I.sum J) := ⟨.inl x.1, x.2⟩

def right (x : Exchange J) : Exchange (I.sum J) := ⟨.inr x.1, x.2⟩

end Exchange

/-- A call and the reply to it, with what was said to others to find the reply. -/
structure Relayed (I J : Interface) where
  exchange : Exchange I
  below : List (Exchange J)

/-- Surroundings that note what is said. A reply may depend on all that was said before. -/
def Surroundings.recording {I : Interface}
    (answer : List (Exchange I) → (c : I.Call) → I.Reply c) : Surroundings I (List (Exchange I)) :=
  fun c log => (answer log c, log ++ [⟨c, answer log c⟩])

/-- Every reply is the one that is given when all before it has been said. -/
def RepliedBy {I : Interface} (answer : List (Exchange I) → (c : I.Call) → I.Reply c)
    (log : List (Exchange I)) : Prop :=
  ∀ l₁ x l₂, log = l₁ ++ x :: l₂ → x.2 = answer l₁ x.1

/-! ## What may be said after what -/

/-- Each item of a list is allowed by those before it, of which `before` come before the list. -/
def Orderly {α : Type} (allowed : List α → α → Prop) : (before : List α) → List α → Prop
  | _, [] => True
  | before, x :: xs => allowed before x ∧ Orderly allowed (before ++ [x]) xs

namespace Orderly
variable {α : Type} {allowed : List α → α → Prop} {before l l' : List α}

theorem append (h : Orderly allowed before l) (h' : Orderly allowed (before ++ l) l') :
    Orderly allowed before (l ++ l') := by
  induction l generalizing before with
  | nil => rwa [List.append_nil] at h'
  | cons x xs ih =>
    refine ⟨h.1, ih h.2 ?_⟩
    rwa [List.append_assoc]

theorem allowed_of_eq_append {x : α} (h : Orderly allowed before l) {l₁ l₂ : List α}
    (heq : l = l₁ ++ x :: l₂) : allowed (before ++ l₁) x := by
  induction l₁ generalizing before l with
  | nil =>
    subst heq
    rw [List.append_nil]
    exact h.1
  | cons y l₁ ih =>
    subst heq
    have hlater := ih h.2 rfl
    rwa [List.append_assoc] at hlater

end Orderly

namespace Program
variable {I J : Interface} {α β : Type}

/-- A run of a program, with what is said in it and what comes of it. -/
inductive Runs : Program I α → List (Exchange I) → α → Prop
  | done (a : α) : Runs (.done a) [] a
  | ask (c : I.Call) (next : I.Reply c → Program I α) (r : I.Reply c) {log : List (Exchange I)}
      {a : α} (h : Runs (next r) log a) : Runs (.ask c next) (⟨c, r⟩ :: log) a

variable {log : List (Exchange I)} {a : α}

theorem runs_done {b : α} : (Program.done b : Program I α).Runs log a ↔ log = [] ∧ a = b := by
  constructor
  · intro h
    cases h
    exact ⟨rfl, rfl⟩
  · rintro ⟨rfl, rfl⟩
    exact .done _

theorem runs_pure {b : α} : (pure b : Program I α).Runs log a ↔ log = [] ∧ a = b := runs_done

theorem runs_ask {c : I.Call} {next : I.Reply c → Program I α} :
    (Program.ask c next).Runs log a ↔ ∃ r rest, (next r).Runs rest a ∧ log = ⟨c, r⟩ :: rest := by
  constructor
  · intro h
    cases h with
    | ask _ _ r h => exact ⟨r, _, h, rfl⟩
  · rintro ⟨r, rest, h, rfl⟩
    exact .ask c next r h

theorem runs_call {c : I.Call} {r : I.Reply c} : (call c).Runs log r ↔ log = [⟨c, r⟩] := by
  constructor
  · intro h
    obtain ⟨r', rest, hrest, rfl⟩ := runs_ask.1 h
    obtain ⟨rfl, rfl⟩ := runs_done.1 hrest
    rfl
  · rintro rfl
    exact .ask c _ r (.done r)

/-- **A run of two parts** is a run of the first, and then of the second. -/
theorem runs_bind {p : Program I α} {f : α → Program I β} {b : β} :
    (p >>= f).Runs log b ↔ ∃ a l₁ l₂, p.Runs l₁ a ∧ (f a).Runs l₂ b ∧ log = l₁ ++ l₂ := by
  constructor
  · intro h
    induction p generalizing log with
    | done a => exact ⟨a, [], log, .done a, h, rfl⟩
    | ask c next ih =>
      obtain ⟨r, rest, hrest, rfl⟩ := runs_ask.1 h
      obtain ⟨a, l₁, l₂, hp, hf, rfl⟩ := ih r hrest
      exact ⟨a, ⟨c, r⟩ :: l₁, l₂, .ask c next r hp, hf, rfl⟩
  · rintro ⟨a, l₁, l₂, hp, hf, rfl⟩
    induction hp with
    | done a => exact hf
    | ask c next r hp ih => exact .ask c _ r (ih hf)

theorem runs_map {g : α → β} {p : Program I α} {b : β} :
    (g <$> p).Runs log b ↔ ∃ a, p.Runs log a ∧ b = g a := by
  rw [map_eq_pure_bind, runs_bind]
  constructor
  · rintro ⟨a, l₁, l₂, hp, hf, rfl⟩
    obtain ⟨rfl, rfl⟩ := runs_pure.1 hf
    exact ⟨a, by rwa [List.append_nil], rfl⟩
  · rintro ⟨a, hp, rfl⟩
    exact ⟨a, log, [], hp, .done _, (List.append_nil log).symm⟩

theorem runs_onLeft {p : Program I α} {log : List (Exchange (I.sum J))} :
    (p.onLeft : Program (I.sum J) α).Runs log a ↔ ∃ l, p.Runs l a ∧ log = l.map .left := by
  constructor
  · intro h
    induction p generalizing log with
    | done b =>
      obtain ⟨rfl, rfl⟩ := runs_done.1 h
      exact ⟨[], .done _, rfl⟩
    | ask c next ih =>
      obtain ⟨r, rest, hrest, rfl⟩ := runs_ask.1 h
      obtain ⟨l, hl, rfl⟩ := ih r hrest
      exact ⟨⟨c, r⟩ :: l, .ask c next r hl, rfl⟩
  · rintro ⟨l, h, rfl⟩
    induction h with
    | done a => exact .done a
    | ask c next r h ih => exact Runs.ask (I := I.sum J) (.inl c) (fun r => (next r).onLeft) r ih

theorem runs_onRight {p : Program J α} {log : List (Exchange (I.sum J))} :
    (p.onRight : Program (I.sum J) α).Runs log a ↔ ∃ l, p.Runs l a ∧ log = l.map .right := by
  constructor
  · intro h
    induction p generalizing log with
    | done b =>
      obtain ⟨rfl, rfl⟩ := runs_done.1 h
      exact ⟨[], .done _, rfl⟩
    | ask c next ih =>
      obtain ⟨r, rest, hrest, rfl⟩ := runs_ask.1 h
      obtain ⟨l, hl, rfl⟩ := ih r hrest
      exact ⟨⟨c, r⟩ :: l, .ask c next r hl, rfl⟩
  · rintro ⟨l, h, rfl⟩
    induction h with
    | done a => exact .done a
    | ask c next r h ih => exact Runs.ask (I := I.sum J) (.inr c) (fun r => (next r).onRight) r ih

/-! ## Calls that are answered by programs -/

/-- **A run of a program whose calls are answered by programs** is one of its own runs, in which
each reply comes of a run of the program that answers the call. -/
theorem runs_run {answer : (c : I.Call) → Program J (I.Reply c)} {p : Program I α}
    {log : List (Exchange J)} :
    (p.run answer).Runs log a ↔ ∃ relayed : List (Relayed I J),
      p.Runs (relayed.map Relayed.exchange) a ∧
      (∀ x ∈ relayed, (answer x.exchange.1).Runs x.below x.exchange.2) ∧
      log = relayed.flatMap Relayed.below := by
  constructor
  · intro h
    induction p generalizing log with
    | done b =>
      obtain ⟨rfl, rfl⟩ := runs_done.1 h
      exact ⟨[], .done _, nofun, rfl⟩
    | ask c next ih =>
      obtain ⟨r, l₁, l₂, hanswer, hnext, rfl⟩ := runs_bind.1 h
      obtain ⟨relayed, hruns, hanswers, rfl⟩ := ih r hnext
      exact ⟨⟨⟨c, r⟩, l₁⟩ :: relayed, .ask c next r hruns,
        List.forall_mem_cons.2 ⟨hanswer, hanswers⟩, rfl⟩
  · rintro ⟨relayed, hruns, hanswers, rfl⟩
    induction relayed generalizing p with
    | nil =>
      cases hruns
      exact .done _
    | cons x relayed ih =>
      obtain ⟨⟨c, r⟩, below⟩ := x
      obtain ⟨hanswer, hanswers⟩ := List.forall_mem_cons.1 hanswers
      cases hruns with
      | ask _ next _ hrest => exact runs_bind.2 ⟨r, below, _, hanswer, ih hrest hanswers, rfl⟩

/-! ## Runs in surroundings that note what is said -/

/-- What is noted is a run, and its replies are those that were given, each after what was said
before it. -/
theorem runs_runIn (answer : List (Exchange I) → (c : I.Call) → I.Reply c) (p : Program I α)
    (before : List (Exchange I)) :
    ∃ log, (p.runIn (.recording answer) before).2 = before ++ log ∧
      p.Runs log (p.runIn (.recording answer) before).1 ∧
      ∀ l₁ x l₂, log = l₁ ++ x :: l₂ → x.2 = answer (before ++ l₁) x.1 := by
  induction p generalizing before with
  | done a => exact ⟨[], (List.append_nil before).symm, .done a, by simp⟩
  | ask c next ih =>
    obtain ⟨log, hlog, hruns, hgiven⟩ :=
      ih (answer before c) (before ++ [⟨c, answer before c⟩])
    refine ⟨⟨c, answer before c⟩ :: log, ?_, .ask c next _ hruns, ?_⟩
    · exact hlog.trans (List.append_assoc _ _ _)
    · intro l₁ x l₂ h
      cases l₁ with
      | nil =>
        cases h
        rw [List.append_nil]
      | cons y l₁ =>
        obtain ⟨rfl, hlater⟩ := List.cons.inj h
        rw [hgiven l₁ x l₂ hlater, List.append_assoc]
        rfl

/-- What is noted from the start is a run, and what holds of every reply there is holds in it. -/
theorem runs_recording {answer : List (Exchange I) → (c : I.Call) → I.Reply c}
    {P : Exchange I → Prop} (hP : ∀ said c, P ⟨c, answer said c⟩) (p : Program I α) :
    p.Runs (p.runIn (.recording answer) []).2 (p.runIn (.recording answer) []).1 ∧
      ∀ x ∈ (p.runIn (.recording answer) []).2, P x := by
  obtain ⟨log, hlog, hruns, hgiven⟩ := runs_runIn answer p []
  rw [List.nil_append] at hlog
  rw [hlog]
  refine ⟨hruns, ?_⟩
  rintro ⟨c, reply⟩ hx
  obtain ⟨before, after, hsplit⟩ := List.append_of_mem hx
  obtain rfl : reply = answer ([] ++ before) c := hgiven before _ after hsplit
  exact hP _ c

/-- In any surroundings a program has a run, in which each reply is one that they give. -/
theorem exists_runs {σ : Type} (w : Surroundings I σ) (p : Program I α) (s : σ) :
    ∃ log, p.Runs log (p.runIn w s).1 ∧ ∀ x ∈ log, ∃ s', (w x.1 s').1 = x.2 := by
  induction p generalizing s with
  | done a => exact ⟨[], .done a, by simp⟩
  | ask c next ih =>
    obtain ⟨log, hruns, hgiven⟩ := ih (w c s).1 (w c s).2
    exact ⟨⟨c, (w c s).1⟩ :: log, .ask c next _ hruns, List.forall_mem_cons.2 ⟨⟨s, rfl⟩, hgiven⟩⟩

/-- A run goes on from what was said before as from the start, in surroundings that know of it. -/
theorem runIn_recording_append (answer : List (Exchange I) → (c : I.Call) → I.Reply c)
    (p : Program I α) (before log : List (Exchange I)) :
    p.runIn (.recording answer) (before ++ log) =
      let run := p.runIn (.recording fun said => answer (before ++ said)) log
      (run.1, before ++ run.2) := by
  induction p generalizing log with
  | done a => rfl
  | ask c next ih =>
    have hlater := ih (answer (before ++ log) c) (log ++ [⟨c, answer (before ++ log) c⟩])
    rw [← List.append_assoc] at hlater
    exact hlater

/-- **Replies to calls that are not made do not matter.** -/
theorem runIn_recording_congr {f g : List (Exchange I) → (c : I.Call) → I.Reply c}
    {P : I.Call → Prop} (hfg : ∀ log c, P c → f log c = g log c) (p : Program I α)
    (before : List (Exchange I)) (h : ∀ x ∈ (p.runIn (.recording f) before).2, P x.1) :
    p.runIn (.recording g) before = p.runIn (.recording f) before := by
  induction p generalizing before with
  | done a => rfl
  | ask c next ih =>
    -- the call is in the record, since whatever follows only adds to it
    have hc : P c := by
      obtain ⟨log, hlog, -⟩ := runs_runIn f (next (f before c)) (before ++ [⟨c, f before c⟩])
      refine h ⟨c, f before c⟩ ?_
      change _ ∈ ((next (f before c)).runIn (.recording f) (before ++ [⟨c, f before c⟩])).2
      rw [hlog]
      simp
    change (next (g before c)).runIn (.recording g) (before ++ [⟨c, g before c⟩]) =
      (next (f before c)).runIn (.recording f) (before ++ [⟨c, f before c⟩])
    rw [← hfg before c hc]
    exact ih (f before c) _ h

end Program

theorem bind_eq_ok {ε α β : Type} {x : Except ε α} {f : α → Except ε β} {b : β} :
    (x >>= f) = .ok b ↔ ∃ a, x = .ok a ∧ f a = .ok b := by
  cases x with
  | error e => exact ⟨nofun, nofun⟩
  | ok a => exact ⟨fun h => ⟨a, rfl, h⟩, fun ⟨_, ha, h⟩ => by cases ha; exact h⟩

namespace Attempt
variable {I J : Interface} {ε ε' α β : Type}

/-- A run of an attempt. -/
def Runs (p : Attempt I ε α) (log : List (Exchange I)) (r : Except ε α) : Prop :=
  p.outcome.Runs log r

variable {log : List (Exchange I)} {r : Except ε α}

theorem runs_pure {a : α} : (pure a : Attempt I ε α).Runs log r ↔ log = [] ∧ r = .ok a :=
  Program.runs_done

theorem runs_throw {e : ε} : (throw e : Attempt I ε α).Runs log r ↔ log = [] ∧ r = .error e :=
  Program.runs_done

theorem runs_ofExcept {r' : Except ε α} :
    (liftM r' : Attempt I ε α).Runs log r ↔ log = [] ∧ r = r' :=
  Program.runs_done

theorem runs_ofOutcome {p : Program I (Except ε α)} : (ofOutcome p).Runs log r ↔ p.Runs log r :=
  Iff.rfl

/-- **A run of two parts** ends with a failure of the first, or goes on after its success. -/
theorem runs_bind {p : Attempt I ε α} {f : α → Attempt I ε β} {r : Except ε β} :
    (p >>= f).Runs log r ↔
      (∃ e, p.Runs log (.error e) ∧ r = .error e) ∨
        ∃ a l₁ l₂, p.Runs l₁ (.ok a) ∧ (f a).Runs l₂ r ∧ log = l₁ ++ l₂ := by
  have hbind : (p >>= f).Runs log r ↔
      ∃ q l₁ l₂, p.Runs l₁ q ∧ (ExceptT.bindCont f q).Runs l₂ r ∧ log = l₁ ++ l₂ :=
    Program.runs_bind (p := p.run) (f := ExceptT.bindCont f)
  rw [hbind]
  constructor
  · rintro ⟨q, l₁, l₂, hp, hf, rfl⟩
    cases q with
    | ok a => exact .inr ⟨a, l₁, l₂, hp, hf, rfl⟩
    | error e =>
      obtain ⟨rfl, rfl⟩ := Program.runs_done.1 hf
      exact .inl ⟨e, by rwa [List.append_nil], rfl⟩
  · rintro (⟨e, hp, rfl⟩ | ⟨a, l₁, l₂, hp, hf, rfl⟩)
    · exact ⟨.error e, log, [], hp, .done _, (List.append_nil log).symm⟩
    · exact ⟨.ok a, l₁, l₂, hp, hf, rfl⟩

/-- What is known before asks nothing. -/
theorem runs_ofExcept_bind {q : Except ε α} {f : α → Attempt I ε β} {r : Except ε β} :
    ((liftM q : Attempt I ε α) >>= f).Runs log r ↔
      (∃ e, q = .error e ∧ log = [] ∧ r = .error e) ∨ ∃ a, q = .ok a ∧ (f a).Runs log r := by
  cases q with
  | error e =>
    have h : ((liftM (Except.error e : Except ε α) : Attempt I ε α) >>= f) = throw e := rfl
    rw [h, runs_throw]
    simp
  | ok a =>
    have h : ((liftM (Except.ok a : Except ε α) : Attempt I ε α) >>= f) = f a := rfl
    rw [h]
    simp

theorem runs_mapError {p : Attempt I ε α} {f : ε → ε'} {r : Except ε' α} :
    (p.mapError f).Runs log r ↔ ∃ q, p.Runs log q ∧ r = q.mapError f :=
  Program.runs_map (g := fun q : Except ε α => q.mapError f)

theorem runs_mapError_ok {p : Attempt I ε α} {f : ε → ε'} {a : α} :
    (p.mapError f).Runs log (.ok a) ↔ p.Runs log (.ok a) := by
  rw [runs_mapError]
  constructor
  · rintro ⟨q, hq, hok⟩
    cases q with
    | error e => cases hok
    | ok b =>
      cases hok
      exact hq
  · intro h
    exact ⟨.ok a, h, rfl⟩

theorem runs_mapError_error {p : Attempt I ε α} {f : ε → ε'} {e' : ε'} :
    (p.mapError f).Runs log (.error e') ↔ ∃ e, p.Runs log (.error e) ∧ e' = f e := by
  rw [runs_mapError]
  constructor
  · rintro ⟨q, hq, herror⟩
    cases q with
    | ok a => cases herror
    | error e =>
      cases herror
      exact ⟨e, hq, rfl⟩
  · rintro ⟨e, h, rfl⟩
    exact ⟨.error e, h, rfl⟩

/-- A run of two parts, a failure of the first being seen from further away. -/
theorem runs_mapError_bind {p : Attempt I ε α} {g : ε → ε'} {f : α → Attempt I ε' β}
    {r : Except ε' β} :
    (p.mapError g >>= f).Runs log r ↔
      (∃ e, p.Runs log (.error e) ∧ r = .error (g e)) ∨
        ∃ a l₁ l₂, p.Runs l₁ (.ok a) ∧ (f a).Runs l₂ r ∧ log = l₁ ++ l₂ := by
  simp only [runs_bind, runs_mapError_ok, runs_mapError_error]
  constructor
  · rintro (⟨_, ⟨e, hp, rfl⟩, rfl⟩ | h)
    · exact .inl ⟨e, hp, rfl⟩
    · exact .inr h
  · rintro (⟨e, hp, rfl⟩ | h)
    · exact .inl ⟨_, ⟨e, hp, rfl⟩, rfl⟩
    · exact .inr h

theorem runs_map {p : Attempt I ε α} {g : α → β} {r : Except ε β} :
    (g <$> p).Runs log r ↔ ∃ q, p.Runs log q ∧ r = q.map g := by
  rw [map_eq_pure_bind, runs_bind]
  constructor
  · rintro (⟨e, hp, rfl⟩ | ⟨a, l₁, l₂, hp, hpure, rfl⟩)
    · exact ⟨.error e, hp, rfl⟩
    · obtain ⟨rfl, rfl⟩ := runs_pure.1 hpure
      exact ⟨.ok a, by rwa [List.append_nil], rfl⟩
  · rintro ⟨q, hp, rfl⟩
    cases q with
    | error e => exact .inl ⟨e, hp, rfl⟩
    | ok a => exact .inr ⟨a, log, [], hp, runs_pure.2 ⟨rfl, rfl⟩, (List.append_nil log).symm⟩

theorem runs_onLeft {p : Attempt I ε α} {log : List (Exchange (I.sum J))} :
    (p.onLeft : Attempt (I.sum J) ε α).Runs log r ↔ ∃ l, p.Runs l r ∧ log = l.map .left :=
  Program.runs_onLeft

theorem runs_onRight {p : Attempt J ε α} {log : List (Exchange (I.sum J))} :
    (p.onRight : Attempt (I.sum J) ε α).Runs log r ↔ ∃ l, p.Runs l r ∧ log = l.map .right :=
  Program.runs_onRight

end Attempt
end PoolKeeper
