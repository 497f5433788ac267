/-
The course of a pass at one minipool: what is said and what comes of it,
whatever the replies.

`visit_of_runs` is the one place where the program for a minipool is taken
apart. A `Visit` ends at one of four points, the last of them being a
`Reduction`, which ends at one of four points again; for each of them there is
all that was said till then. `runs_processAll_cons` makes a pass of visits, and
`exists_visit` finds that of a minipool. Statements on passes are by cases on a
visit and by induction on the minipools.
-/
import PoolKeeper.Bond.Pass
import PoolKeeper.Proofs.Transcript

namespace PoolKeeper

namespace Snapshot

/-- The window of a request, from the words that are read of a minipool. -/
def bondWindow (s : Snapshot) (requestTime : UInt64) (cancelled : Word) : BondWindow :=
  ⟨requestTime, cancelled != 0, s.parts.network.bondReductionWindowStart,
    s.parts.network.bondReductionWindowLength⟩

end Snapshot

namespace BondPass

/-- The call that reads the request of a minipool, at the block of the snapshot. -/
def windowCall (s : Snapshot) (minipool : Address) : Chain.Call :=
  .readWords [.reduceBondTime minipool, .reduceBondCancelled minipool] (some s.parts.elBlock)

theorem windowCall_inj {s : Snapshot} {a b : Address} (h : windowCall s a = windowCall s b) :
    a = b := by
  cases h
  rfl

/-- What the words of a request mean. -/
def requestOf (s : Snapshot) : Except Failure (List Word) → Except Failure BondWindow
  | .ok [time, cancelled] =>
    match time.toUInt64? with
    | some requestTime => .ok (s.bondWindow requestTime cancelled)
    | none => .error (.text ("reduce bond time " ++ time.decimal ++ " out of range"))
  | .ok words => .error (.text ("expected 2 values, got " ++ Numeral.decimal words.length))
  | .error f => .error f

/-- What comes of reading a request, from the reply. -/
def windowOf (s : Snapshot) (minipool : Address) (reply : Except Failure (List Word)) :
    Except Failure BondWindow :=
  (requestOf s reply).mapError
    (.because ("error reading the bond reduction state of minipool " ++ minipool.checksum))

variable {s : Snapshot} {gas : GasSettings} {now : UInt64} {m : MinipoolDetails} {known : FeeCap}
  {log : List (Exchange Chain)}

/-- A request is read when there are two words, the first of 64 bits. -/
theorem windowOf_eq_ok_iff {minipool : Address} {reply : Except Failure (List Word)}
    {w : BondWindow} :
    windowOf s minipool reply = .ok w ↔
      ∃ t c, reply = .ok [.ofUInt64 t, c] ∧ w = s.bondWindow t c := by
  constructor
  · intro h
    obtain f | (_ | ⟨time, _ | ⟨c, _ | ⟨extra, rest⟩⟩⟩) := reply
    · cases h
    · cases h
    · cases h
    · cases htime : time.toUInt64? with
      | none =>
        simp only [windowOf, requestOf, htime] at h
        cases h
      | some t =>
        simp only [windowOf, requestOf, htime] at h
        cases h
        exact ⟨t, c, by rw [Word.toUInt64?_eq_some_iff.1 htime], rfl⟩
    · cases h
  · rintro ⟨t, c, rfl, rfl⟩
    simp only [windowOf, requestOf, Word.toUInt64?_eq_some_iff.2 rfl]
    rfl

/-- **A request is read by one call.** -/
theorem outcome_readWindow (s : Snapshot) (minipool : Address) :
    (readWindow s minipool).outcome =
      windowOf s minipool <$> Program.call (I := Chain) (windowCall s minipool) := by
  refine congrArg (Program.ask (I := Chain) (windowCall s minipool)) (funext fun reply => ?_)
  -- two words are a request, and with any other number of them there is none
  obtain f | (_ | ⟨time, _ | ⟨c, _ | ⟨extra, rest⟩⟩⟩) := reply
  · rfl
  · rfl
  · rfl
  · change _ = Program.done (windowOf s minipool (.ok [time, c]))
    rw [windowOf, requestOf]
    cases htime : time.toUInt64? with
    | none =>
      simp only [Program.bind, ExceptT.bindCont, htime]
      rfl
    | some t =>
      simp only [Program.bind, ExceptT.bindCont, htime]
      rfl
  · rfl

theorem runs_readWindow {minipool : Address} {r : Except Failure BondWindow}
    (h : (readWindow s minipool).Runs log r) :
    ∃ reply, log = [⟨windowCall s minipool, reply⟩] ∧ r = windowOf s minipool reply := by
  rw [Attempt.Runs, outcome_readWindow] at h
  obtain ⟨reply, hcall, rfl⟩ := Program.runs_map.1 h
  exact ⟨reply, Program.runs_call.1 hcall, rfl⟩

/-- How a fee cap is come by, and what is said for it. -/
inductive Priced (gas : GasSettings) (known : FeeCap) : List (Exchange Chain) → Word → Prop
  | settled (fee : Word) (h : known.or gas.maxFee = some fee) : Priced gas known [] fee
  | suggested (fee : Word) (h : known.or gas.maxFee = none) :
    Priced gas known [⟨.suggestedFeeCap, .ok fee⟩] fee

/-- There is a cap, or it had to be asked for and that failed. -/
theorem priced_of_runs {r : Except Failure Word} (h : (feeCap gas known).Runs log r) :
    (∃ fee, r = .ok fee ∧ Priced gas known log fee) ∨
      known.or gas.maxFee = none ∧ ∃ f e, log = [⟨.suggestedFeeCap, .error f⟩] ∧ r = .error e := by
  rw [feeCap] at h
  cases hfee : known.or gas.maxFee with
  | some fee =>
    rw [hfee] at h
    obtain ⟨rfl, rfl⟩ := Attempt.runs_pure.1 h
    exact .inl ⟨fee, rfl, .settled fee hfee⟩
  | none =>
    rw [hfee] at h
    obtain ⟨q, hq, rfl⟩ := Attempt.runs_mapError.1 h
    cases Program.runs_call.1 hq
    cases q with
    | ok fee => exact .inl ⟨fee, rfl, .suggested fee hfee⟩
    | error f => exact .inr ⟨rfl, f, _, rfl, rfl⟩

/-- The options that a reduction is sent with. -/
def options (gas : GasSettings) (fee : Word) (info : GasInfo) : TxOptions :=
  ⟨fee, gas.priorityFee, gas.gasLimit.getD info.safeGasLimit⟩

/-- The reduction of a bond that is ready. -/
inductive Reduction (gas : GasSettings) (w : BondWindow) (minipool : Address) (elapsed : UInt64)
    (known : FeeCap) : List (Exchange Chain) → FeeCap × Except Failure BondOutcome → Prop
  | unestimated (f e : Failure) :
    Reduction gas w minipool elapsed known [⟨.estimateReduceBond minipool, .error f⟩]
      (known, .error e)
  | unpriced (info : GasInfo) (f e : Failure) (hunknown : known.or gas.maxFee = none) :
    Reduction gas w minipool elapsed known
      [⟨.estimateReduceBond minipool, .ok info⟩, ⟨.suggestedFeeCap, .error f⟩] (known, .error e)
  | deferred (info : GasInfo) (asked : List (Exchange Chain)) (fee : Word) (untilForced : UInt64)
    (hpriced : Priced gas known asked fee)
    (hdefer : w.decide elapsed fee gas.threshold = .defer untilForced) :
    Reduction gas w minipool elapsed known (⟨.estimateReduceBond minipool, .ok info⟩ :: asked)
      (some fee, .ok (.deferred (dearGas fee gas.threshold) untilForced))
  | sent (info : GasInfo) (asked : List (Exchange Chain)) (fee : Word) (reply : Except Failure Hash)
    (result : Except Failure BondOutcome) (hpriced : Priced gas known asked fee)
    (hsend : w.decide elapsed fee gas.threshold = .submit ∨
      w.decide elapsed fee gas.threshold = .force) :
    Reduction gas w minipool elapsed known
      (⟨.estimateReduceBond minipool, .ok info⟩ ::
        (asked ++ [⟨.sendReduction minipool (options gas fee info), reply⟩]))
      (some fee, result)

/-- What a pass notes of a reduction. -/
def noted : Except Failure BondOutcome → BondOutcome
  | .ok o => o
  | .error e => .failed e.line

/-- A visit of a minipool. -/
inductive Visit (s : Snapshot) (gas : GasSettings) (now : UInt64) (m : MinipoolDetails)
    (known : FeeCap) : List (Exchange Chain) → FeeCap × Option BondOutcome → Prop
  | unread (reply : Except Failure (List Word)) (e : Failure)
    (hread : windowOf s m.address reply = .error e) :
    Visit s gas now m known [⟨windowCall s m.address, reply⟩] (known, some (.failed e.line))
  | idle (reply : Except Failure (List Word)) (w : BondWindow)
    (hread : windowOf s m.address reply = .ok w)
    (hidle : w.classify m now = .notEligible ∨ w.classify m now = .cancelled) :
    Visit s gas now m known [⟨windowCall s m.address, reply⟩] (known, none)
  | waiting (reply : Except Failure (List Word)) (w : BondWindow) (remaining : UInt64)
    (hread : windowOf s m.address reply = .ok w)
    (hwaiting : w.classify m now = .waitingForWindow remaining) :
    Visit s gas now m known [⟨windowCall s m.address, reply⟩]
      (known, some (.notYetEligible remaining))
  | reduced (reply : Except Failure (List Word)) (w : BondWindow) (elapsed : UInt64)
    {log : List (Exchange Chain)} {known' : FeeCap} {result : Except Failure BondOutcome}
    (hread : windowOf s m.address reply = .ok w)
    (hready : w.classify m now = .readyToReduce elapsed)
    (h : Reduction gas w m.address elapsed known log (known', result)) :
    Visit s gas now m known (⟨windowCall s m.address, reply⟩ :: log) (known', some (noted result))

/-- What comes of sending a reduction, from the reply. -/
def sentOf (minipool : Address) (forced : Bool) (reply : Except Failure Hash) :
    Except Failure BondOutcome :=
  (reply.mapError (.because ("error submitting the bond reduction of minipool " ++
    minipool.checksum))).map (.submitted · forced)

/-- **A reduction is sent by one call.** -/
theorem outcome_submit (gas : GasSettings) (minipool : Address) (fee : Word) (info : GasInfo)
    (forced : Bool) :
    (submit gas minipool fee info forced).outcome = sentOf minipool forced <$>
      Program.call (I := Chain) (.sendReduction minipool (options gas fee info)) := by
  refine congrArg (Program.ask (I := Chain) (.sendReduction minipool (options gas fee info))) ?_
  funext reply
  cases reply <;> rfl

theorem runs_submit {minipool : Address} {fee : Word} {info : GasInfo} {forced : Bool}
    {r : Except Failure BondOutcome}
    (h : (submit gas minipool fee info forced).outcome.Runs log r) :
    ∃ reply, log = [⟨.sendReduction minipool (options gas fee info), reply⟩] := by
  rw [outcome_submit] at h
  obtain ⟨reply, hcall, -⟩ := Program.runs_map.1 h
  exact ⟨reply, Program.runs_call.1 hcall⟩

/-- What happens when a reduction is ready. -/
theorem reduction_of_runs {w : BondWindow} {minipool : Address} {elapsed : UInt64}
    {r : FeeCap × Except Failure BondOutcome}
    (h : (reduce gas w minipool elapsed known).Runs log r) :
    Reduction gas w minipool elapsed known log r := by
  obtain ⟨estimated, l₁, l₂, hestimated, hthen, rfl⟩ := Program.runs_bind.1 h
  obtain ⟨estimate, hestimate, rfl⟩ := Attempt.runs_mapError.1 hestimated
  cases Program.runs_call.1 hestimate
  cases estimate with
  | error f =>
    obtain ⟨rfl, rfl⟩ := Program.runs_pure.1 hthen
    exact .unestimated f _
  | ok info =>
    obtain ⟨price, l₃, l₄, hprice, hdecided, rfl⟩ := Program.runs_bind.1 hthen
    obtain ⟨fee, rfl, hpriced⟩ | ⟨hunknown, f, e, rfl, rfl⟩ := priced_of_runs hprice
    · have sent (forced : Bool) (hsend : w.decide elapsed fee gas.threshold = .submit ∨
          w.decide elapsed fee gas.threshold = .force)
          (h : ((submit gas minipool fee info forced).outcome >>=
            fun result => pure (some fee, result)).Runs l₄ r) :
          Reduction gas w minipool elapsed known
            (⟨.estimateReduceBond minipool, .ok info⟩ :: (l₃ ++ l₄)) r := by
        obtain ⟨result, l₅, l₆, hsubmit, hend, rfl⟩ := Program.runs_bind.1 h
        obtain ⟨reply, rfl⟩ := runs_submit hsubmit
        obtain ⟨rfl, rfl⟩ := Program.runs_pure.1 hend
        exact .sent info l₃ fee reply result hpriced hsend
      cases hdecide : w.decide elapsed fee gas.threshold with
      | submit =>
        simp only [hdecide] at hdecided
        exact sent false (.inl hdecide) hdecided
      | force =>
        simp only [hdecide] at hdecided
        exact sent true (.inr hdecide) hdecided
      | defer untilForced =>
        simp only [hdecide] at hdecided
        obtain ⟨rfl, rfl⟩ := Program.runs_pure.1 hdecided
        rw [List.append_nil]
        exact .deferred info l₃ fee untilForced hpriced hdecide
    · obtain ⟨rfl, rfl⟩ := Program.runs_pure.1 hdecided
      exact .unpriced info f e hunknown

/-- **What happens at a minipool.** -/
theorem visit_of_runs {r : FeeCap × Option BondOutcome}
    (h : (process s gas now m known).Runs log r) : Visit s gas now m known log r := by
  obtain ⟨q, l₁, l₂, hread, hrest, rfl⟩ := Program.runs_bind.1 h
  obtain ⟨reply, rfl, rfl⟩ := runs_readWindow hread
  cases hw : windowOf s m.address reply with
  | error e =>
    simp only [hw] at hrest
    obtain ⟨rfl, rfl⟩ := Program.runs_pure.1 hrest
    exact .unread reply e hw
  | ok w =>
    simp only [hw] at hrest
    cases hstate : w.classify m now with
    | notEligible =>
      simp only [hstate] at hrest
      obtain ⟨rfl, rfl⟩ := Program.runs_pure.1 hrest
      exact .idle reply w hw (.inl hstate)
    | cancelled =>
      simp only [hstate] at hrest
      obtain ⟨rfl, rfl⟩ := Program.runs_pure.1 hrest
      exact .idle reply w hw (.inr hstate)
    | waitingForWindow remaining =>
      simp only [hstate] at hrest
      obtain ⟨rfl, rfl⟩ := Program.runs_pure.1 hrest
      exact .waiting reply w remaining hw hstate
    | readyToReduce elapsed =>
      simp only [hstate] at hrest
      obtain ⟨⟨known', result⟩, l₃, l₄, hreduce, hend, rfl⟩ := Program.runs_bind.1 hrest
      have hreduction := reduction_of_runs hreduce
      cases result with
      | ok o =>
        obtain ⟨rfl, rfl⟩ := Program.runs_pure.1 hend
        rw [List.append_nil]
        exact .reduced reply w elapsed hw hstate hreduction
      | error e =>
        obtain ⟨rfl, rfl⟩ := Program.runs_pure.1 hend
        rw [List.append_nil]
        exact .reduced reply w elapsed hw hstate hreduction

/-- **A pass is a visit of one minipool after the other**, the cap being handed on. -/
theorem runs_processAll_cons {ms : List MinipoolDetails} {outcomes : List MinipoolOutcome}
    (h : (processAll s gas now (m :: ms) known).Runs log outcomes) :
    ∃ l₁ l₂ known' outcome rest, Visit s gas now m known l₁ (known', outcome) ∧
      (processAll s gas now ms known').Runs l₂ rest ∧ log = l₁ ++ l₂ ∧
      outcomes = (outcome.map fun o => ⟨m.address, o⟩).toList ++ rest := by
  obtain ⟨⟨known', outcome⟩, l₁, l₂, hvisit, hthen, rfl⟩ := Program.runs_bind.1 h
  obtain ⟨rest, l₃, l₄, hrest, hend, rfl⟩ := Program.runs_bind.1 hthen
  obtain ⟨rfl, rfl⟩ := Program.runs_pure.1 hend
  exact ⟨l₁, l₃, known', outcome, rest, visit_of_runs hvisit, hrest, by rw [List.append_nil], rfl⟩

/-- In a pass every minipool is visited, and what comes of it is among the outcomes. -/
theorem exists_visit {ms : List MinipoolDetails} {outcomes : List MinipoolOutcome}
    (h : (processAll s gas now ms known).Runs log outcomes) (hm : m ∈ ms) :
    ∃ known l r, Visit s gas now m known l r ∧ l ⊆ log ∧ ∀ o ∈ r.2, ⟨m.address, o⟩ ∈ outcomes := by
  induction ms generalizing known log outcomes with
  | nil => cases hm
  | cons m' ms ih =>
    obtain ⟨l₁, l₂, known', outcome, rest, hvisit, hrest, rfl, rfl⟩ := runs_processAll_cons h
    rcases List.mem_cons.1 hm with rfl | hm
    · refine ⟨known, l₁, _, hvisit, List.subset_append_left l₁ l₂, fun o ho => ?_⟩
      obtain rfl : outcome = some o := ho
      exact List.mem_append_left _ (List.mem_singleton_self _)
    · obtain ⟨known, l, r, hlater, hsaid, houtcome⟩ := ih hrest hm
      exact ⟨known, l, r, hlater, fun x hx => List.mem_append_right _ (hsaid hx),
        fun o ho => List.mem_append_right _ (houtcome o ho)⟩

end BondPass
end PoolKeeper
