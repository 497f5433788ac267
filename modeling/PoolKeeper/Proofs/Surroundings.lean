/-
Programs run in surroundings that every call may change.

`Program.runIn_bind` and `Attempt.runIn_bind` run a program in two parts;
`runIn_onLeft` and `runIn_onRight` say that the part of a program which asks one
of two surroundings leaves the other as it is. `Program.Alike` compares runs in
different surroundings, call by call.
-/
import PoolKeeper.Program

namespace PoolKeeper

/-- Surroundings that reply to every call and may be changed by it. -/
abbrev Surroundings (I : Interface) (σ : Type) : Type := (c : I.Call) → σ → I.Reply c × σ

namespace Surroundings
variable {I J : Interface} {σ τ : Type}

/-- Two surroundings side by side. -/
def sum (w : Surroundings I σ) (v : Surroundings J τ) : Surroundings (I.sum J) (σ × τ)
  | .inl c, (s, t) => ((w c s).1, (w c s).2, t)
  | .inr c, (s, t) => ((v c t).1, s, (v c t).2)

/-- Surroundings that note the calls made of them. A reply may depend on all
calls before it. -/
def noting (answer : List I.Call → (c : I.Call) → I.Reply c) : Surroundings I (List I.Call) :=
  fun c calls => (answer calls c, calls ++ [c])

/-- Surroundings that always give the same reply to a call. -/
def fixed (answer : (c : I.Call) → I.Reply c) : Surroundings I Unit := fun c u => (answer c, u)

end Surroundings

namespace Program
variable {I J : Interface} {σ τ α β : Type} (w : Surroundings I σ) (v : Surroundings J τ)

/-- The end of a program, and the surroundings after it. -/
def runIn (p : Program I α) : σ → α × σ := p.run (m := StateM σ) w

@[simp] theorem runIn_pure (a : α) (s : σ) : (pure a : Program I α).runIn w s = (a, s) := rfl

@[simp] theorem runIn_done (a : α) (s : σ) : (Program.done a).runIn w s = (a, s) := rfl

@[simp] theorem runIn_ask (c : I.Call) (next : I.Reply c → Program I α) (s : σ) :
    (Program.ask c next).runIn w s = (next (w c s).1).runIn w (w c s).2 := rfl

@[simp] theorem runIn_call (c : I.Call) (s : σ) : (call c).runIn w s = w c s := rfl

theorem runIn_bind (p : Program I α) (f : α → Program I β) (s : σ) :
    (p >>= f).runIn w s = (f (p.runIn w s).1).runIn w (p.runIn w s).2 := by
  induction p generalizing s with
  | done a => rfl
  | ask c next ih => simp only [ask_bind, runIn_ask, ih]

@[simp] theorem runIn_map (g : α → β) (p : Program I α) (s : σ) :
    (g <$> p).runIn w s = (g (p.runIn w s).1, (p.runIn w s).2) := by
  rw [map_eq_pure_bind, runIn_bind, runIn_pure]

@[simp] theorem runIn_onLeft (p : Program I α) (s : σ) (t : τ) :
    p.onLeft.runIn (w.sum v) (s, t) = ((p.runIn w s).1, (p.runIn w s).2, t) := by
  induction p generalizing s with
  | done a => rfl
  | ask c next ih => exact ih (w c s).1 (w c s).2

@[simp] theorem runIn_onRight (p : Program J α) (s : σ) (t : τ) :
    p.onRight.runIn (w.sum v) (s, t) = ((p.runIn v t).1, s, (p.runIn v t).2) := by
  induction p generalizing t with
  | done a => rfl
  | ask c next ih => exact ih (v c t).1 (v c t).2

/-! ## Two runs -/

/-- Two programs in surroundings of their own: where these are related at the start, so are they
at the end, and what comes of the programs is related too. -/
def Alike (w : Surroundings I σ) (v : Surroundings J τ) (R : σ → τ → Prop) (Q : α → β → Prop)
    (p : Program I α) (q : Program J β) : Prop :=
  ∀ s t, R s t → Q (p.runIn w s).1 (q.runIn v t).1 ∧ R (p.runIn w s).2 (q.runIn v t).2

namespace Alike
variable {w v} {α' β' : Type} {R : σ → τ → Prop} {Q : α → β → Prop} {Q' : α' → β' → Prop}
  {p : Program I α} {q : Program J β}

theorem done {a : α} {b : β} (h : Q a b) :
    Alike w v R Q (pure a : Program I α) (pure b : Program J β) :=
  fun _ _ hR => ⟨h, hR⟩

theorem bind {f : α → Program I α'} {g : β → Program J β'} (h : Alike w v R Q p q)
    (hfg : ∀ a b, Q a b → Alike w v R Q' (f a) (g b)) :
    Alike w v R Q' (p >>= f) (q >>= g) := by
  intro s t hR
  obtain ⟨hvalue, hafter⟩ := h s t hR
  rw [runIn_bind, runIn_bind]
  exact hfg _ _ hvalue _ _ hafter

theorem map {f : α → α'} {g : β → β'} (h : Alike w v R Q p q)
    (hfg : ∀ a b, Q a b → Q' (f a) (g b)) : Alike w v R Q' (f <$> p) (g <$> q) := by
  intro s t hR
  obtain ⟨hvalue, hafter⟩ := h s t hR
  rw [runIn_map, runIn_map]
  exact ⟨hfg _ _ hvalue, hafter⟩

end Alike
end Program

namespace Attempt
variable {I J : Interface} {σ τ ε ε' α β : Type} (w : Surroundings I σ) (v : Surroundings J τ)

/-- What comes of an attempt, and the surroundings after it. -/
def runIn (p : Attempt I ε α) (s : σ) : Except ε α × σ := p.outcome.runIn w s

@[simp] theorem runIn_pure (a : α) (s : σ) :
    (pure a : Attempt I ε α).runIn w s = (.ok a, s) := rfl

@[simp] theorem runIn_throw (e : ε) (s : σ) :
    (throw e : Attempt I ε α).runIn w s = (.error e, s) := rfl

@[simp] theorem runIn_ofOutcome (p : Program I (Except ε α)) (s : σ) :
    (ofOutcome p).runIn w s = p.runIn w s := rfl

@[simp] theorem runIn_lift (p : Program I α) (s : σ) :
    (ExceptT.lift p : Attempt I ε α).runIn w s = (.ok (p.runIn w s).1, (p.runIn w s).2) :=
  Program.runIn_map w Except.ok p s

@[simp] theorem runIn_mapError (f : ε → ε') (p : Attempt I ε α) (s : σ) :
    (p.mapError f).runIn w s = ((p.runIn w s).1.mapError f, (p.runIn w s).2) :=
  Program.runIn_map w (fun r : Except ε α => r.mapError f) p.run s

@[simp] theorem runIn_onLeft (p : Attempt I ε α) (s : σ) (t : τ) :
    (p.onLeft : Attempt (I.sum J) ε α).runIn (w.sum v) (s, t) =
      ((p.runIn w s).1, (p.runIn w s).2, t) :=
  Program.runIn_onLeft w v p.run s t

@[simp] theorem runIn_onRight (p : Attempt J ε α) (s : σ) (t : τ) :
    (p.onRight : Attempt (I.sum J) ε α).runIn (w.sum v) (s, t) =
      ((p.runIn v t).1, s, (p.runIn v t).2) :=
  Program.runIn_onRight w v p.run s t

/-- An attempt goes on only after a success. -/
theorem runIn_bind (p : Attempt I ε α) (f : α → Attempt I ε β) (s : σ) :
    (p >>= f).runIn w s =
      match (p.runIn w s).1 with
      | .ok a => (f a).runIn w (p.runIn w s).2
      | .error e => (.error e, (p.runIn w s).2) := by
  have h : (p >>= f).runIn w s =
      (ExceptT.bindCont f (p.runIn w s).1).runIn w (p.runIn w s).2 :=
    Program.runIn_bind w p.run (ExceptT.bindCont f) s
  rw [h]
  cases (p.runIn w s).1 <;> rfl

variable {w} {v}

theorem runIn_onLeft_eq_iff {p : Attempt I ε α} {r : Except ε α} {s s' : σ} {t t' : τ} :
    (p.onLeft : Attempt (I.sum J) ε α).runIn (w.sum v) (s, t) = (r, s', t') ↔
      p.runIn w s = (r, s') ∧ t' = t := by
  rw [runIn_onLeft, Prod.ext_iff, Prod.ext_iff, Prod.ext_iff, and_assoc, eq_comm (a := t)]

theorem runIn_onRight_eq_iff {p : Attempt J ε α} {r : Except ε α} {s s' : σ} {t t' : τ} :
    (p.onRight : Attempt (I.sum J) ε α).runIn (w.sum v) (s, t) = (r, s', t') ↔
      p.runIn v t = (r, t') ∧ s' = s := by
  rw [runIn_onRight, Prod.ext_iff, Prod.ext_iff, Prod.ext_iff]
  constructor
  · rintro ⟨hr, hs, ht⟩
    exact ⟨⟨hr, ht⟩, hs.symm⟩
  · rintro ⟨⟨hr, ht⟩, hs⟩
    exact ⟨hr, hs.symm, ht⟩

variable {p : Attempt I ε α} {s s' : σ}

theorem runIn_bind_ok {a : α} (h : p.runIn w s = (.ok a, s')) (f : α → Attempt I ε β) :
    (p >>= f).runIn w s = (f a).runIn w s' := by
  rw [runIn_bind, h]

theorem runIn_bind_eq_ok {f : α → Attempt I ε β} {b : β} :
    (p >>= f).runIn w s = (.ok b, s') ↔
      ∃ a s₁, p.runIn w s = (.ok a, s₁) ∧ (f a).runIn w s₁ = (.ok b, s') := by
  constructor
  · intro h
    rw [runIn_bind] at h
    cases hp : (p.runIn w s).1 with
    | error e =>
      rw [hp] at h
      cases h
    | ok a =>
      rw [hp] at h
      exact ⟨a, _, Prod.ext hp rfl, h⟩
  · rintro ⟨a, s₁, hp, hf⟩
    rw [runIn_bind_ok hp, hf]

/-- Where replies do not depend on what was asked before, each of several attempts comes to what
it comes to alone, and the first failure ends them. -/
theorem runIn_fixed_mapM {answer : (c : I.Call) → I.Reply c} (f : β → Attempt I ε α) (xs : List β) :
    (xs.mapM f).runIn (.fixed answer) () =
      ((xs.map fun x => ((f x).runIn (.fixed answer) ()).1).mapM id, ()) := by
  induction xs with
  | nil => rfl
  | cons x xs ih =>
    rw [List.mapM_cons, runIn_bind, List.map_cons, List.mapM_cons]
    cases ((f x).runIn (.fixed answer) ()).1 with
    | error e => rfl
    | ok a =>
      show (xs.mapM f >>= fun as => pure (a :: as)).runIn (.fixed answer) () = _
      rw [runIn_bind, ih]
      cases (xs.map fun x => ((f x).runIn (.fixed answer) ()).1).mapM id with
      | error e => rfl
      | ok as => rfl

theorem runIn_mapError_ok {a : α} (h : p.runIn w s = (.ok a, s')) (f : ε → ε') :
    (p.mapError f).runIn w s = (.ok a, s') := by
  rw [runIn_mapError, h]
  rfl

theorem runIn_mapError_eq_ok {f : ε → ε'} {a : α} :
    (p.mapError f).runIn w s = (.ok a, s') ↔ p.runIn w s = (.ok a, s') := by
  refine ⟨fun h => ?_, fun h => runIn_mapError_ok h f⟩
  rw [runIn_mapError] at h
  cases hp : (p.runIn w s).1 with
  | error e =>
    rw [hp] at h
    cases h
  | ok b =>
    rw [hp] at h
    cases h
    exact Prod.ext hp rfl

theorem runIn_bind_eq_error {f : α → Attempt I ε β} {e : ε} :
    (p >>= f).runIn w s = (.error e, s') ↔
      p.runIn w s = (.error e, s') ∨
        ∃ a s₁, p.runIn w s = (.ok a, s₁) ∧ (f a).runIn w s₁ = (.error e, s') := by
  rw [runIn_bind]
  obtain ⟨r, s₁⟩ := p.runIn w s
  cases r with
  | error e' => simp
  | ok a =>
    simp only [Prod.mk.injEq, reduceCtorEq, false_and, false_or, Except.ok.injEq]
    constructor
    · intro h
      exact ⟨a, s₁, ⟨rfl, rfl⟩, h⟩
    · rintro ⟨_, _, ⟨rfl, rfl⟩, h⟩
      exact h

theorem runIn_mapError_eq_error {f : ε → ε'} {e : ε'} :
    (p.mapError f).runIn w s = (.error e, s') ↔
      ∃ e₀, p.runIn w s = (.error e₀, s') ∧ f e₀ = e := by
  rw [runIn_mapError]
  obtain ⟨r, s₁⟩ := p.runIn w s
  constructor
  · intro h
    cases r with
    | ok a => cases h
    | error e₀ =>
      cases h
      exact ⟨e₀, rfl, rfl⟩
  · rintro ⟨e₀, he, rfl⟩
    cases he
    rfl

end Attempt
end PoolKeeper
