/-
What fails at a minipool stays with it. If a chain's replies about a minipool
depend only on what was said about that minipool, and the suggested fee cap is
always the same, then a pass is made of passes over one minipool at a time.

Minipools share the fee cap of a pass, and it is come by at different points of
the two kinds of passes. Whenever it is, it is the same (`runIn_feeCap`); so the
visit of a minipool in the midst of a pass and the one that is all of a pass are
alike, but for when they ask for a cap (`alike_process`).
-/
import PoolKeeper.Proofs.Bond.Submissions

namespace PoolKeeper

/-- The snapshot without the other minipools. -/
def Snapshot.only (s : Snapshot) (minipool : Address) : Snapshot :=
  .ofCoherent
    { s.parts with minipools := s.parts.minipools.filter (·.address = minipool) }
    (s.coherent.sublist List.filter_sublist)

namespace BondPass

/-- Whether a call is about a minipool: reads its request, or estimates or sends its reduction. -/
def isAbout (minipool : Address) : Chain.Call → Bool
  | .readWords reads _ => reads = [.reduceBondTime minipool, .reduceBondCancelled minipool]
  | .estimateReduceBond a => a = minipool
  | .sendReduction a _ => a = minipool
  | _ => false

@[simp] theorem isAbout_windowCall (s : Snapshot) (a : Address) :
    isAbout a (windowCall s a) = true := decide_eq_true rfl

@[simp] theorem isAbout_estimateReduceBond (a : Address) :
    isAbout a (.estimateReduceBond a) = true := decide_eq_true rfl

@[simp] theorem isAbout_sendReduction (a : Address) (o : TxOptions) :
    isAbout a (.sendReduction a o) = true := decide_eq_true rfl

/-- Replies about a minipool depend on what was said about it and on nothing else, and the same fee
cap is always suggested, or always none. -/
structure Separate (answer : List (Exchange Chain) → (c : Chain.Call) → Chain.Reply c) : Prop where
  about : ∀ minipool log c, isAbout minipool c = true →
    answer log c = answer (log.filter fun x => isAbout minipool x.1) c
  feeCap : ∀ log, answer log .suggestedFeeCap = answer [] .suggestedFeeCap

/-- Replies that depend on the call only. -/
theorem separate_of_fixed (answer : (c : Chain.Call) → Chain.Reply c) :
    Separate fun _ c => answer c :=
  ⟨fun _ _ _ _ => rfl, fun _ => rfl⟩

/-- What was said, but for fee caps. -/
def besidesFee (log : List (Exchange Chain)) : List (Exchange Chain) :=
  log.filter fun x => x.1 ≠ .suggestedFeeCap

theorem besidesFee_append (l l' : List (Exchange Chain)) :
    besidesFee (l ++ l') = besidesFee l ++ besidesFee l' := List.filter_append ..

theorem submissions_besidesFee (log : List (Exchange Chain)) :
    submissions (besidesFee log) = submissions log := by
  rw [submissions, besidesFee, List.filterMap_filter]
  refine congrArg (List.filterMap · log) (funext fun x => ?_)
  obtain ⟨call, reply⟩ := x
  cases call <;> rfl

theorem isAbout_inj {a b : Address} {c : Chain.Call} (ha : isAbout a c = true)
    (hb : isAbout b c = true) : a = b := by
  cases c with
  | readWords reads block =>
    have hab := (of_decide_eq_true ha).symm.trans (of_decide_eq_true hb)
    cases hab
    rfl
  | estimateReduceBond m => exact (of_decide_eq_true ha).symm.trans (of_decide_eq_true hb)
  | sendReduction m options => exact (of_decide_eq_true ha).symm.trans (of_decide_eq_true hb)
  | _ => cases ha

theorem filter_isAbout_besidesFee (minipool : Address) (log : List (Exchange Chain)) :
    (besidesFee log).filter (fun x => isAbout minipool x.1) =
      log.filter fun x => isAbout minipool x.1 := by
  rw [besidesFee, List.filter_filter]
  refine congrArg (List.filter · log) (funext fun x => ?_)
  obtain ⟨call, reply⟩ := x
  cases call <;> simp [isAbout]

variable {s : Snapshot} {gas : GasSettings} {node : Address} {now : UInt64} {m : MinipoolDetails}
  {known known' : FeeCap} {suggested : Except Failure Word}
  {f g : List (Exchange Chain) → (c : Chain.Call) → Chain.Reply c}

/-! ## The fee cap -/

/-- What comes of the need for a fee cap, whenever that is. -/
def price (gas : GasSettings) (suggested : Except Failure Word) : Except Failure Word :=
  match gas.maxFee with
  | some set => .ok set
  | none => suggested.mapError (.because "error getting the max fee")

/-- A cap that is known is the one there would be without knowing it. -/
def Known (gas : GasSettings) (suggested : Except Failure Word) (known : FeeCap) : Prop :=
  ∀ fee, known = some fee → price gas suggested = .ok fee

/-- **Whenever it is come by, the cap is the same.** -/
theorem runIn_feeCap (hsuggested : ∀ log, f log .suggestedFeeCap = suggested)
    (hknown : Known gas suggested known) (log : List (Exchange Chain)) :
    ((feeCap gas known).runIn (.recording f) log).1 = price gas suggested ∧
      besidesFee ((feeCap gas known).runIn (.recording f) log).2 = besidesFee log := by
  cases known with
  | some fee => exact ⟨(hknown fee rfl).symm, rfl⟩
  | none =>
    rw [feeCap, price]
    cases gas.maxFee with
    | some set => exact ⟨rfl, rfl⟩
    | none =>
      refine ⟨congrArg (Except.mapError _) (hsuggested log), ?_⟩
      exact (besidesFee_append log _).trans (List.append_nil _)

/-! ## Two visits of a minipool -/

/-- Two chains that reply the same about a minipool when the same was said, fee caps aside, and that
suggest the same cap. -/
structure Agree (minipool : Address) (suggested : Except Failure Word)
    (f g : List (Exchange Chain) → (c : Chain.Call) → Chain.Reply c) : Prop where
  about : ∀ log log' c, besidesFee log = besidesFee log' → isAbout minipool c = true →
    f log c = g log' c
  feeCap_left : ∀ log, f log .suggestedFeeCap = suggested
  feeCap_right : ∀ log, g log .suggestedFeeCap = suggested

/-- What was said before about others does not matter. -/
theorem Separate.agree (hf : Separate f) (hg : Separate g) {minipool : Address}
    (hsame : ∀ log c, isAbout minipool c = true → f log c = g log c)
    (hfee : f [] .suggestedFeeCap = g [] .suggestedFeeCap) {before : List (Exchange Chain)}
    (hbefore : ∀ x ∈ before, ¬ isAbout minipool x.1 = true) :
    Agree minipool (g [] .suggestedFeeCap) (fun log => f (before ++ log)) g where
  about log log' c hlog hc := by
    have hnone : (before.filter fun x => isAbout minipool x.1) = [] :=
      List.filter_eq_nil_iff.2 hbefore
    rw [hf.about minipool _ c hc, hsame _ c hc, hg.about minipool log' c hc, List.filter_append,
      hnone, List.nil_append, ← filter_isAbout_besidesFee minipool log, hlog,
      filter_isAbout_besidesFee]
  feeCap_left log := (hf.feeCap _).trans hfee
  feeCap_right log := hg.feeCap log

/-- The same was said in both runs, fee caps aside. -/
def SameBesides (log log' : List (Exchange Chain)) : Prop := besidesFee log = besidesFee log'

/-- The same came of two runs, and no wrong cap is known after them. -/
def SameResult {α : Type} (gas : GasSettings) (suggested : Except Failure Word)
    (r r' : FeeCap × α) : Prop :=
  r.2 = r'.2 ∧ Known gas suggested r.1 ∧ Known gas suggested r'.1

section Alike
open Program (Alike)

theorem Agree.alike_call (h : Agree m.address suggested f g) {c : Chain.Call}
    (hc : isAbout m.address c = true) :
    Alike (.recording f) (.recording g) SameBesides (· = ·)
      (Program.call (I := Chain) c) (Program.call (I := Chain) c) := by
  intro log log' hlog
  have hreply : f log c = g log' c := h.about log log' c hlog hc
  refine ⟨hreply, ?_⟩
  change besidesFee (log ++ [⟨c, f log c⟩]) = besidesFee (log' ++ [⟨c, g log' c⟩])
  rw [besidesFee_append, besidesFee_append, show besidesFee log = besidesFee log' from hlog, hreply]

/-- A call about the minipool, of which something is made. -/
theorem Agree.alike_map_call {α : Type} (h : Agree m.address suggested f g) {c : Chain.Call}
    (hc : isAbout m.address c = true) (of : Chain.Reply c → α) :
    Alike (.recording f) (.recording g) SameBesides (· = ·)
      (of <$> Program.call (I := Chain) c) (of <$> Program.call (I := Chain) c) :=
  (h.alike_call hc).map fun _ _ heq => congrArg of heq

theorem Agree.alike_feeCap (h : Agree m.address suggested f g)
    (hknown : Known gas suggested known) (hknown' : Known gas suggested known') :
    Alike (.recording f) (.recording g) SameBesides
      (fun r r' => r = price gas suggested ∧ r' = price gas suggested)
      (feeCap gas known).outcome (feeCap gas known').outcome := by
  intro log log' hlog
  obtain ⟨hvalue, hafter⟩ := runIn_feeCap h.feeCap_left hknown log
  obtain ⟨hvalue', hafter'⟩ := runIn_feeCap h.feeCap_right hknown' log'
  exact ⟨⟨hvalue, hvalue'⟩, hafter.trans (hlog.trans hafter'.symm)⟩

theorem Agree.alike_reduce (h : Agree m.address suggested f g) (w : BondWindow) (elapsed : UInt64)
    (hknown : Known gas suggested known) (hknown' : Known gas suggested known') :
    Alike (.recording f) (.recording g) SameBesides (SameResult gas suggested)
      (reduce gas w m.address elapsed known) (reduce gas w m.address elapsed known') := by
  refine (h.alike_map_call (isAbout_estimateReduceBond m.address) _).bind ?_
  rintro (e | info) _ rfl
  · exact .done ⟨rfl, hknown, hknown'⟩
  refine (h.alike_feeCap hknown hknown').bind ?_
  rintro _ _ ⟨rfl, rfl⟩
  cases hprice : price gas suggested with
  | error e => exact .done ⟨rfl, hknown, hknown'⟩
  | ok fee =>
    have hfee : Known gas suggested (some fee) := fun _ heq => Option.some.inj heq ▸ hprice
    have sent (forced : Bool) : Alike (.recording f) (.recording g) SameBesides (· = ·)
        (submit gas m.address fee info forced).outcome
        (submit gas m.address fee info forced).outcome := by
      rw [outcome_submit]
      exact h.alike_map_call (isAbout_sendReduction m.address _) _
    have noted (result result' : Except Failure BondOutcome) (heq : result = result') :
        Alike (.recording f) (.recording g) SameBesides (SameResult gas suggested)
          (pure (some fee, result)) (pure (some fee, result')) := .done ⟨heq, hfee, hfee⟩
    dsimp only
    cases w.decide elapsed fee gas.threshold with
    | submit => exact (sent false).bind noted
    | force => exact (sent true).bind noted
    | defer untilForced => exact noted _ _ rfl

/-- **Visits are alike** where the chains agree, whatever caps are known at their start. -/
theorem Agree.alike_process (h : Agree m.address suggested f g) (s : Snapshot) (now : UInt64)
    (hknown : Known gas suggested known) (hknown' : Known gas suggested known') :
    Alike (.recording f) (.recording g) SameBesides (SameResult gas suggested)
      (process s gas now m known) (process s gas now m known') := by
  have read : Alike (.recording f) (.recording g) SameBesides (· = ·)
      (readWindow s m.address).outcome (readWindow s m.address).outcome := by
    rw [outcome_readWindow]
    exact h.alike_map_call (isAbout_windowCall s m.address) _
  refine read.bind ?_
  rintro (e | w) _ rfl
  · exact .done ⟨rfl, hknown, hknown'⟩
  dsimp only
  cases w.classify m now with
  | notEligible => exact .done ⟨rfl, hknown, hknown'⟩
  | cancelled => exact .done ⟨rfl, hknown, hknown'⟩
  | waitingForWindow remaining => exact .done ⟨rfl, hknown, hknown'⟩
  | readyToReduce elapsed =>
    refine (h.alike_reduce w elapsed hknown hknown').bind ?_
    rintro ⟨after, result⟩ ⟨after', _⟩ ⟨rfl, hafter, hafter'⟩
    cases result with
    | ok o => exact .done ⟨rfl, hafter, hafter'⟩
    | error e => exact .done ⟨rfl, hafter, hafter'⟩

end Alike

/-! ## What a visit is about -/

section Visit
variable {log : List (Exchange Chain)}

theorem Priced.besidesFee_eq_nil {fee : Word} (h : Priced gas known log fee) :
    besidesFee log = [] := by
  cases h <;> rfl

theorem Reduction.about {w : BondWindow} {minipool : Address} {elapsed : UInt64}
    {r : FeeCap × Except Failure BondOutcome} (h : Reduction gas w minipool elapsed known log r) :
    ∀ x ∈ besidesFee log, isAbout minipool x.1 = true := by
  have estimate (reply : Except Failure GasInfo) (rest : List (Exchange Chain))
      (hrest : ∀ x ∈ besidesFee rest, isAbout minipool x.1 = true) :
      ∀ x ∈ besidesFee (⟨.estimateReduceBond minipool, reply⟩ :: rest),
        isAbout minipool x.1 = true :=
    List.forall_mem_cons.2 ⟨isAbout_estimateReduceBond minipool, hrest⟩
  cases h with
  | unestimated f e => exact estimate _ _ nofun
  | unpriced info f e hunknown => exact estimate _ _ nofun
  | deferred info asked fee untilForced hpriced hdefer =>
    refine estimate _ _ ?_
    rw [hpriced.besidesFee_eq_nil]
    exact nofun
  | sent info asked fee reply result hpriced hsend =>
    refine estimate _ _ ?_
    rw [besidesFee_append, hpriced.besidesFee_eq_nil]
    exact List.forall_mem_singleton.2 (isAbout_sendReduction minipool _)

/-- **A visit is about its minipool**, fee caps aside. -/
theorem Visit.about {r : FeeCap × Option BondOutcome} (h : Visit s gas now m known log r) :
    ∀ x ∈ besidesFee log, isAbout m.address x.1 = true := by
  have read (reply : Except Failure (List Word)) (rest : List (Exchange Chain))
      (hrest : ∀ x ∈ besidesFee rest, isAbout m.address x.1 = true) :
      ∀ x ∈ besidesFee (⟨windowCall s m.address, reply⟩ :: rest), isAbout m.address x.1 = true :=
    List.forall_mem_cons.2 ⟨isAbout_windowCall s m.address, hrest⟩
  cases h with
  | unread reply e hread => exact read _ _ nofun
  | idle reply w hread hidle => exact read _ _ nofun
  | waiting reply w remaining hread hwaiting => exact read _ _ nofun
  | reduced reply w elapsed hread hready hreduction => exact read _ _ hreduction.about

/-- A visit is about no other minipool. -/
theorem Visit.eq_of_isAbout {r : FeeCap × Option BondOutcome} (h : Visit s gas now m known log r)
    {x : Exchange Chain} (hx : x ∈ log) {a : Address} (ha : isAbout a x.1 = true) :
    a = m.address := by
  refine isAbout_inj ha (h.about x (List.mem_filter.2 ⟨hx, ?_⟩))
  rw [decide_eq_true_iff]
  intro hfee
  rw [hfee] at ha
  cases ha

theorem Visit.eq_of_mem_submissions {r : FeeCap × Option BondOutcome}
    (h : Visit s gas now m known log r) {x : Address × TxOptions} (hx : x ∈ submissions log) :
    x.1 = m.address := by
  obtain ⟨before, reply, after, rfl⟩ := eq_append_of_mem_submissions hx
  exact h.eq_of_isAbout (List.mem_append_right _ List.mem_cons_self) (isAbout_sendReduction x.1 x.2)

end Visit

/-- What was read of a minipool is no request, or none that is pending. -/
def NothingPending (s : Snapshot) (now : UInt64) (m : MinipoolDetails)
    (reply : Except Failure (List Word)) : Prop :=
  ∃ w, windowOf s m.address reply = .ok w ∧
    (w.classify m now = .notEligible ∨ w.classify m now = .cancelled)

/-! ## A pass and the passes over one minipool -/

section Pass
variable (s gas now)

/-- The pass over a minipool alone. -/
def alone (answer : List (Exchange Chain) → (c : Chain.Call) → Chain.Reply c)
    (m : MinipoolDetails) : List MinipoolOutcome × List (Exchange Chain) :=
  (processAll s gas now [m] none).runIn (.recording answer) []

theorem runIn_processAll_cons {σ : Type} (w : Surroundings Chain σ) (ms : List MinipoolDetails)
    (l : σ) :
    (processAll s gas now (m :: ms) known).runIn w l =
      let visit := (process s gas now m known).runIn w l
      let rest := (processAll s gas now ms visit.1.1).runIn w visit.2
      ((visit.1.2.map fun o => ⟨m.address, o⟩).toList ++ rest.1, rest.2) := by
  rw [processAll, Program.runIn_bind]
  exact Program.runIn_bind w _ _ _

theorem alone_eq (answer : List (Exchange Chain) → (c : Chain.Call) → Chain.Reply c) :
    alone s gas now answer m =
      let visit := (process s gas now m none).runIn (.recording answer) []
      ((visit.1.2.map fun o => ⟨m.address, o⟩).toList, visit.2) := by
  rw [alone, runIn_processAll_cons]
  dsimp only
  rw [processAll, Program.runIn_pure, List.append_nil]

/-- The pass over a minipool alone is a visit, with the replies of the chain. -/
theorem visit_alone (answer : List (Exchange Chain) → (c : Chain.Call) → Chain.Reply c)
    (m : MinipoolDetails) :
    ∃ known outcome, Visit s gas now m none (alone s gas now answer m).2 (known, outcome) ∧
      (alone s gas now answer m).1 = (outcome.map fun o => ⟨m.address, o⟩).toList ∧
      ∀ x ∈ (alone s gas now answer m).2.head?, x.2 = answer [] x.1 := by
  obtain ⟨log, hlog, hruns, hgiven⟩ := Program.runs_runIn answer (process s gas now m none) []
  obtain rfl : _ = log := hlog
  rw [alone_eq]
  refine ⟨_, _, visit_of_runs hruns, rfl, fun x hx => ?_⟩
  obtain ⟨rest, hrest⟩ := List.head?_eq_some_iff.1 hx
  exact hgiven [] x rest hrest

/-- A minipool without a pending request contributes nothing. -/
theorem alone_of_nothingPending
    {answer : List (Exchange Chain) → (c : Chain.Call) → Chain.Reply c}
    (h : NothingPending s now m (answer [] (windowCall s m.address))) :
    (alone s gas now answer m).1 = [] ∧ submissions (alone s gas now answer m).2 = [] := by
  obtain ⟨known, outcome, hvisit, houtcome, hfirst⟩ := visit_alone s gas now answer m
  obtain ⟨w, hw, hidle⟩ := h
  rw [houtcome]
  generalize (alone s gas now answer m).2 = log at hvisit hfirst
  have read {reply : Except Failure (List Word)} {rest : List (Exchange Chain)}
      (hlog : log = ⟨windowCall s m.address, reply⟩ :: rest) :
      windowOf s m.address reply = .ok w := by
    have hreply := hfirst _ (List.head?_eq_some_iff.2 ⟨rest, hlog⟩)
    rwa [← hreply] at hw
  cases hvisit with
  | unread reply e hread =>
    rw [read rfl] at hread
    cases hread
  | idle reply w' hread hidle' => exact ⟨rfl, rfl⟩
  | waiting reply w' remaining hread hwaiting =>
    rw [read rfl] at hread
    cases hread
    rcases hidle with hidle | hidle <;> cases hidle.symm.trans hwaiting
  | reduced reply w' elapsed hread hready hreduction =>
    rw [read rfl] at hread
    cases hread
    rcases hidle with hidle | hidle <;> cases hidle.symm.trans hready

/-- **A visit in the midst of a pass** comes to the same as one that is all of a pass, whatever was
said before of other minipools. -/
theorem runIn_process (hf : Separate f) (hg : Separate g)
    (hsame : ∀ log c, isAbout m.address c = true → f log c = g log c)
    (hfee : f [] .suggestedFeeCap = g [] .suggestedFeeCap) (before : List (Exchange Chain))
    (hbefore : ∀ x ∈ before, ¬ isAbout m.address x.1 = true)
    (hknown : Known gas (g [] .suggestedFeeCap) known) :
    ∃ known' outcome log,
      (process s gas now m known).runIn (.recording f) before = ((known', outcome), before ++ log) ∧
      Visit s gas now m known log (known', outcome) ∧ Known gas (g [] .suggestedFeeCap) known' ∧
      (outcome.map fun o => ⟨m.address, o⟩).toList = (alone s gas now g m).1 ∧
      besidesFee log = besidesFee (alone s gas now g m).2 := by
  obtain ⟨log, hlog, hruns, -⟩ := Program.runs_runIn (fun said => f (before ++ said))
    (process s gas now m known) []
  obtain rfl : _ = log := hlog
  have hagree := hf.agree hg hsame hfee hbefore
  have hnone : Known gas (g [] .suggestedFeeCap) none := nofun
  obtain ⟨⟨houtcome, hknown', -⟩, hlog'⟩ :=
    hagree.alike_process s now hknown hnone [] [] rfl
  refine ⟨_, _, _, ?_, visit_of_runs hruns, hknown', ?_, ?_⟩
  · have hstart := Program.runIn_recording_append f (process s gas now m known) before []
    rwa [List.append_nil] at hstart
  · rw [alone_eq, houtcome]
  · rw [alone_eq]
    exact hlog'

/-- **A pass goes on as the passes over one minipool do**, whatever was said before of others. -/
theorem runIn_processAll {answer : List (Exchange Chain) → (c : Chain.Call) → Chain.Reply c}
    (h : Separate answer) {ms : List MinipoolDetails}
    (hnodup : (ms.map MinipoolDetails.address).Nodup) (before : List (Exchange Chain))
    (hbefore : ∀ m ∈ ms, ∀ x ∈ before, ¬ isAbout m.address x.1 = true)
    (hknown : Known gas (answer [] .suggestedFeeCap) known) :
    ∃ log, (processAll s gas now ms known).runIn (.recording answer) before =
        (ms.flatMap fun m => (alone s gas now answer m).1, before ++ log) ∧
      besidesFee log = ms.flatMap fun m => besidesFee (alone s gas now answer m).2 := by
  induction ms generalizing known before with
  | nil => exact ⟨[], by rw [List.append_nil]; rfl, rfl⟩
  | cons m ms ih =>
    obtain ⟨hm, hbefore⟩ := List.forall_mem_cons.1 hbefore
    obtain ⟨hfresh, hnodup⟩ := List.nodup_cons.1 hnodup
    obtain ⟨known', outcome, first, hprocess, hvisit, hknown', houtcome, hfirst⟩ :=
      runIn_process s gas now h h (fun _ _ _ => rfl) rfl before hm hknown
    have hlater : ∀ m' ∈ ms, ∀ x ∈ before ++ first, ¬ isAbout m'.address x.1 = true := by
      intro m' hm' x hx habout
      rcases List.mem_append.1 hx with hx | hx
      · exact hbefore m' hm' x hx habout
      · exact hfresh (hvisit.eq_of_isAbout hx habout ▸ List.mem_map_of_mem hm')
    obtain ⟨rest, hrest, hbesides⟩ := ih hnodup (before ++ first) hlater hknown'
    refine ⟨first ++ rest, ?_, ?_⟩
    · rw [runIn_processAll_cons, hprocess]
      dsimp only
      rw [hrest, houtcome, List.append_assoc, List.flatMap_cons]
    · rw [besidesFee_append, hfirst, hbesides, List.flatMap_cons]

/-- Chains that agree about a minipool have the same pass over it alone, fee caps aside. -/
theorem alone_congr (hf : Separate f) (hg : Separate g)
    (hsame : ∀ log c, isAbout m.address c = true → f log c = g log c)
    (hfee : f [] .suggestedFeeCap = g [] .suggestedFeeCap) :
    (alone s gas now f m).1 = (alone s gas now g m).1 ∧
      submissions (alone s gas now f m).2 = submissions (alone s gas now g m).2 := by
  have hnone : Known gas (g [] .suggestedFeeCap) none := nofun
  obtain ⟨known, outcome, log, hprocess, -, -, houtcome, hlog⟩ :=
    runIn_process s gas now hf hg hsame hfee [] nofun hnone
  rw [alone_eq s gas now f, hprocess]
  refine ⟨houtcome, ?_⟩
  rw [← submissions_besidesFee, ← submissions_besidesFee (alone s gas now g m).2]
  exact congrArg submissions hlog

/-! ## Snapshots of one minipool -/

/-- Of lists put together, each with a key of its own, one is found again by its key. -/
theorem filter_flatMap_of_key {α β κ : Type} [DecidableEq κ] {xs : List α} {key : α → κ}
    (parts : α → List β) (keyOf : β → κ) (hnodup : (xs.map key).Nodup)
    (hkey : ∀ x ∈ xs, ∀ y ∈ parts x, keyOf y = key x) {x : α} (hx : x ∈ xs) :
    (xs.flatMap parts).filter (keyOf · = key x) = parts x := by
  induction xs with
  | nil => cases hx
  | cons x' xs ih =>
    obtain ⟨hfresh, hnodup⟩ := List.nodup_cons.1 hnodup
    obtain ⟨hfirst, hlater⟩ := List.forall_mem_cons.1 hkey
    rw [List.flatMap_cons, List.filter_append]
    rcases List.mem_cons.1 hx with rfl | hx
    · have hothers : (xs.flatMap parts).filter (keyOf · = key x) = [] := by
        refine List.filter_eq_nil_iff.2 fun y hy => ?_
        obtain ⟨x', hx', hy⟩ := List.mem_flatMap.1 hy
        rw [decide_eq_true_iff, hlater x' hx' y hy]
        exact fun heq => hfresh (heq ▸ List.mem_map_of_mem hx')
      rw [hothers, List.append_nil]
      exact List.filter_eq_self.2 fun y hy => decide_eq_true (hfirst y hy)
    · have hother : (parts x').filter (keyOf · = key x) = [] := by
        refine List.filter_eq_nil_iff.2 fun y hy => ?_
        rw [decide_eq_true_iff, hfirst y hy]
        exact fun heq => hfresh (heq ▸ List.mem_map_of_mem hx)
      rw [hother, List.nil_append, ih hnodup hlater hx]

theorem minipoolsOf_only (hm : m ∈ s.minipoolsOf node) :
    (s.only m.address).minipoolsOf node = [m] := by
  have hone := filter_flatMap_of_key (fun m => [m]) MinipoolDetails.address
    (nodup_minipoolsOf s node) (fun _ _ _ hy => congrArg _ (List.mem_singleton.1 hy)) hm
  rw [List.flatMap_singleton'] at hone
  rw [← hone, Snapshot.minipoolsOf_eq, Snapshot.minipoolsOf_eq, List.filter_filter]
  refine (List.filter_filter ..).trans ?_
  exact congrArg (List.filter · _) (funext fun _ => Bool.and_comm _ _)

theorem processAll_only (a : Address) (ms : List MinipoolDetails) (known : FeeCap) :
    processAll (s.only a) gas now ms known = processAll s gas now ms known := by
  induction ms generalizing known with
  | nil => rfl
  | cons m ms ih => simp only [processAll, ih]; rfl

theorem runIn_only (hatlas : s.parts.isAtlasDeployed = true) (hm : m ∈ s.minipoolsOf node)
    (answer : List (Exchange Chain) → (c : Chain.Call) → Chain.Reply c) :
    (run (s.only m.address) gas node now).runIn (.recording answer) [] =
      alone s gas now answer m := by
  have honly : (s.only m.address).parts.isAtlasDeployed = true := hatlas
  rw [run, if_pos honly, minipoolsOf_only s hm, processAll_only, alone]

/-- A pass comes to what the passes over its minipools come to. -/
theorem runIn_run (node : Address) (h : Separate f) (hatlas : s.parts.isAtlasDeployed = true) :
    ((run s gas node now).runIn (.recording f) []).1 =
        (s.minipoolsOf node).flatMap (fun m => (alone s gas now f m).1) ∧
      submissions ((run s gas node now).runIn (.recording f) []).2 =
        (s.minipoolsOf node).flatMap fun m => submissions (alone s gas now f m).2 := by
  have hnone : Known gas (f [] .suggestedFeeCap) none := nofun
  obtain ⟨log, hrun, hlog⟩ := runIn_processAll s gas now h (nodup_minipoolsOf s node) []
    (fun _ _ => nofun) hnone
  rw [run, if_pos hatlas, hrun]
  refine ⟨rfl, ?_⟩
  dsimp only
  rw [List.nil_append, ← submissions_besidesFee, hlog, submissions, List.filterMap_flatMap]
  exact congrArg (List.flatMap · _) (funext fun m => submissions_besidesFee _)

/-- What a pass has of a minipool is what the pass over it alone comes to. -/
theorem filter_runIn_run (h : Separate f) (hatlas : s.parts.isAtlasDeployed = true)
    (hm : m ∈ s.minipoolsOf node) :
    ((run s gas node now).runIn (.recording f) []).1.filter (·.minipool = m.address) =
        (alone s gas now f m).1 ∧
      (submissions ((run s gas node now).runIn (.recording f) []).2).filter (·.1 = m.address) =
        submissions (alone s gas now f m).2 := by
  obtain ⟨houtcomes, hsubmissions⟩ := runIn_run s gas now node h hatlas
  rw [houtcomes, hsubmissions]
  refine ⟨filter_flatMap_of_key _ _ (nodup_minipoolsOf s node) ?_ hm,
    filter_flatMap_of_key _ _ (nodup_minipoolsOf s node) ?_ hm⟩
  · intro m' _ o ho
    obtain ⟨known, outcome, -, houtcome, -⟩ := visit_alone s gas now f m'
    rw [houtcome, Option.mem_toList, Option.map_eq_some_iff] at ho
    obtain ⟨o', -, rfl⟩ := ho
    rfl
  · intro m' _ x hx
    obtain ⟨known, outcome, hvisit, -⟩ := visit_alone s gas now f m'
    exact hvisit.eq_of_mem_submissions hx

end Pass

/-- **What fails at a minipool stays with it.** If replies about a minipool depend on nothing but
what was said about it, and suggested fee caps are all the same, a pass comes to what the passes
over one of its minipools at a time come to, and sends what they send. So what is replied of other
minipools changes nothing for a minipool, and one without a pending request contributes nothing. -/
theorem pass_eq_single_passes (s : Snapshot) (gas : GasSettings) (node : Address) (now : UInt64)
    (answer : List (Exchange Chain) → (c : Chain.Call) → Chain.Reply c) (h : Separate answer) :
    let pass answer (s : Snapshot) := (run s gas node now).runIn (.recording answer) []
    (pass answer s).1 =
      (s.minipoolsOf node).flatMap (fun m => (pass answer (s.only m.address)).1) ∧
    submissions (pass answer s).2 =
      (s.minipoolsOf node).flatMap (fun m => submissions (pass answer (s.only m.address)).2) ∧
    ∀ m ∈ s.minipoolsOf node,
      (∀ answer', Separate answer' →
        (∀ log c, isAbout m.address c = true → answer' log c = answer log c) →
        answer' [] .suggestedFeeCap = answer [] .suggestedFeeCap →
          (pass answer' s).1.filter (·.minipool = m.address) =
            (pass answer s).1.filter (·.minipool = m.address) ∧
          (submissions (pass answer' s).2).filter (·.1 = m.address) =
            (submissions (pass answer s).2).filter (·.1 = m.address)) ∧
      (NothingPending s now m (answer [] (windowCall s m.address)) →
        (pass answer s).1.filter (·.minipool = m.address) = [] ∧
        (submissions (pass answer s).2).filter (·.1 = m.address) = []) := by
  intro pass
  cases hatlas : s.parts.isAtlasDeployed with
  | false =>
    have hempty answer (s' : Snapshot) (hs' : s'.parts.isAtlasDeployed = false) :
        pass answer s' = ([], []) := by
      change (run s' gas node now).runIn _ [] = _
      rw [run_of_not_isAtlasDeployed hs']
      rfl
    have honly (a : Address) : (s.only a).parts.isAtlasDeployed = false := hatlas
    simp [hempty _ s hatlas, hempty _ _ (honly _), submissions]
  | true =>
    have hsingle : ∀ m ∈ s.minipoolsOf node,
        pass answer (s.only m.address) = alone s gas now answer m :=
      fun m hm => runIn_only s gas now hatlas hm answer
    obtain ⟨houtcomes, hsubmissions⟩ := runIn_run s gas now node h hatlas
    refine ⟨?_, ?_, fun m hm => ⟨fun answer' h' hsame hfee => ?_, fun hnothing => ?_⟩⟩
    · rw [List.flatMap_def] at houtcomes ⊢
      refine houtcomes.trans (congrArg List.flatten (List.map_congr_left fun m hm => ?_))
      rw [hsingle m hm]
    · rw [List.flatMap_def] at hsubmissions ⊢
      refine hsubmissions.trans (congrArg List.flatten (List.map_congr_left fun m hm => ?_))
      rw [hsingle m hm]
    · obtain ⟨ho, hs⟩ := filter_runIn_run s gas now h hatlas hm
      obtain ⟨ho', hs'⟩ := filter_runIn_run s gas now h' hatlas hm
      obtain ⟨halone, halone'⟩ := alone_congr s gas now h' h hsame hfee
      exact ⟨ho'.trans (halone.trans ho.symm), hs'.trans (halone'.trans hs.symm)⟩
    · obtain ⟨ho, hs⟩ := filter_runIn_run s gas now h hatlas hm
      obtain ⟨hnone, hnone'⟩ := alone_of_nothingPending s gas now hnothing
      exact ⟨ho.trans hnone, hs.trans hnone'⟩

/-- The chain of `threeRequests`, when the reduction of the first minipool cannot be estimated. -/
def firstUnestimated : (c : Chain.Call) → Chain.Reply c
  | .estimateReduceBond a =>
    if a = .ofNat 2 then .error (.text "execution reverted")
    else threeRequests.answer (.estimateReduceBond a)
  | c => threeRequests.answer c

/-- The first minipool fails, and the last is reduced as if nothing had happened. -/
theorem failed_estimate_stays :
    let gas : GasSettings := ⟨gweiToWei 150, none, gweiToWei 2, none⟩
    let pass (answer : (c : Chain.Call) → Chain.Reply c) (s : Snapshot) :=
      (run s gas (.ofNat 1) 1064900).runIn (.recording fun _ c => answer c) []
    (pass firstUnestimated threeMinipools).1.map MinipoolOutcome.minipool =
        [.ofNat 2, .ofNat 3, .ofNat 4] ∧
      submissions (pass firstUnestimated threeMinipools).2 =
        [(.ofNat 4, ⟨gweiToWei 300, gweiToWei 2, 150000⟩)] ∧
      (pass firstUnestimated threeMinipools).1 = (threeMinipools.minipoolsOf (.ofNat 1)).flatMap
        (fun m => (pass firstUnestimated (threeMinipools.only m.address)).1) ∧
      (pass firstUnestimated threeMinipools).1.filter (·.minipool = .ofNat 4) =
        (pass threeRequests.answer threeMinipools).1.filter (·.minipool = .ofNat 4) := by
  intro gas pass
  have hsame (log : List (Exchange Chain)) (c : Chain.Call) (hc : isAbout (.ofNat 4) c = true) :
      firstUnestimated c = threeRequests.answer c := by
    cases c with
    | estimateReduceBond a =>
      obtain rfl : a = .ofNat 4 := of_decide_eq_true hc
      have hne : (.ofNat 4 : Address) ≠ .ofNat 2 := by decide
      rw [firstUnestimated, if_neg hne]
    | _ => rfl
  have hlast : reducible 4 ∈ threeMinipools.minipoolsOf (.ofNat 1) := by decide +kernel
  have hfailing := pass_eq_single_passes threeMinipools gas (.ofNat 1) 1064900
    (fun _ c => firstUnestimated c) (separate_of_fixed firstUnestimated)
  have hworking := pass_eq_single_passes threeMinipools gas (.ofNat 1) 1064900
    (fun _ c => threeRequests.answer c) (separate_of_fixed threeRequests.answer)
  refine ⟨by decide +kernel, by decide +kernel, hfailing.1, ?_⟩
  exact ((hworking.2.2 _ hlast).1 _ (separate_of_fixed firstUnestimated) hsame rfl).1

end BondPass
end PoolKeeper
