/-
What a pass sends: a reduction only where it is due, judged by what has been
read before in the same pass, and at one fee cap that is asked for no more once
it is known.

`Standing` is the state of a pass between two calls. A visit keeps it and says
nothing that is not allowed (`Visit.leads`), so a pass does (`leads_of_runs`),
whatever the replies are and whichever of them are failures.
-/
import PoolKeeper.InMemory.Chain
import PoolKeeper.Proofs.Bond.Visit
import PoolKeeper.Proofs.Bond.Window
import PoolKeeper.Proofs.State.Coherence

namespace PoolKeeper

/-- What was sent by an exchange, if it was a reduction. -/
def Exchange.submission? : Exchange Chain → Option (Address × TxOptions)
  | ⟨.sendReduction minipool options, _⟩ => some (minipool, options)
  | _ => none

/-- The reductions that were sent, in order. -/
def submissions (log : List (Exchange Chain)) : List (Address × TxOptions) :=
  log.filterMap Exchange.submission?

theorem submissions_append (l l' : List (Exchange Chain)) :
    submissions (l ++ l') = submissions l ++ submissions l' := List.filterMap_append

theorem submissions_append_of_none (l : List (Exchange Chain)) {l' : List (Exchange Chain)}
    (h : ∀ x ∈ l', x.submission? = none) : submissions (l ++ l') = submissions l := by
  rw [submissions_append, submissions, submissions, List.filterMap_eq_nil_iff.2 h, List.append_nil]

/-- What was sent was sent at some time. -/
theorem eq_append_of_mem_submissions {log : List (Exchange Chain)} {minipool : Address}
    {options : TxOptions} (h : (minipool, options) ∈ submissions log) :
    ∃ before reply after, log = before ++ ⟨.sendReduction minipool options, reply⟩ :: after := by
  obtain ⟨⟨call, reply⟩, hmem, hsent⟩ := List.mem_filterMap.1 h
  obtain ⟨before, after, rfl⟩ := List.append_of_mem hmem
  cases call with
  | sendReduction minipool' options' =>
    cases hsent
    exact ⟨before, reply, after, rfl⟩
  | _ => cases hsent

namespace BondPass

/-- The fee cap of a pass: the one that is set, or else the one that was suggested. -/
def CapOf (gas : GasSettings) (said : List (Exchange Chain)) (fee : Word) : Prop :=
  match gas.maxFee with
  | some set => fee = set
  | none => ⟨.suggestedFeeCap, .ok fee⟩ ∈ said

/-- The gas limit of a reduction: the one that is set, or else that of the minipool's estimate. -/
def LimitOf (gas : GasSettings) (said : List (Exchange Chain)) (minipool : Address)
    (limit : UInt64) : Prop :=
  match gas.gasLimit with
  | some set => limit = set
  | none => ∃ info, ⟨.estimateReduceBond minipool, .ok info⟩ ∈ said ∧ limit = info.safeGasLimit

/-- Why a reduction may be sent after all that was said before. -/
structure Due (s : Snapshot) (gas : GasSettings) (node : Address) (now : UInt64)
    (before : List (Exchange Chain)) (minipool : Address) (options : TxOptions) : Prop where
  /-- None has been sent for the minipool. -/
  unsent : minipool ∉ (submissions before).map Prod.fst
  /-- It is the node's, it is staking, and its bond is 16 ether. -/
  eligible : ∃ m ∈ s.minipoolsOf node, m.address = minipool ∧ m.status = .staking ∧
    m.nodeDepositBalance.toNat = 16 * 10 ^ 18
  /-- What was read of it at the block of the snapshot is a request that has not been cancelled and
  whose window is open; and gas is cheap, or less than half of the window is left. -/
  timely : ∃ t : UInt64,
    (∀ reply, ⟨windowCall s minipool, reply⟩ ∈ before ↔ reply = .ok [.ofUInt64 t, 0]) ∧ t ≠ 0 ∧
    let start := s.parts.network.bondReductionWindowStart.toNat
    let length := s.parts.network.bondReductionWindowLength.toNat
    let elapsed := now.toNat - t.toNat
    start < elapsed ∧ elapsed < start + length ∧
      (options.gasFeeCap < gas.threshold ∨
        min (start + length) (2 ^ 64 - 1) - elapsed < length / 2)
  feeCap : CapOf gas before options.gasFeeCap
  tipCap : options.gasTipCap = gas.priorityFee
  gasLimit : LimitOf gas before minipool options.gasLimit

/-- What a pass may say next: it sends what is due, and asks for a cap only while it has none. -/
def Allowed (s : Snapshot) (gas : GasSettings) (node : Address) (now : UInt64)
    (before : List (Exchange Chain)) : Exchange Chain → Prop
  | ⟨.sendReduction minipool options, _⟩ => Due s gas node now before minipool options
  | ⟨.suggestedFeeCap, _⟩ => ∀ fee, ⟨.suggestedFeeCap, .ok fee⟩ ∉ before
  | _ => True

/-- The state of a pass with minipools that are still to be visited. -/
structure Standing (s : Snapshot) (gas : GasSettings) (rest : List MinipoolDetails)
    (said : List (Exchange Chain)) (known : FeeCap) : Prop where
  unread : ∀ m ∈ rest, ∀ reply, ⟨windowCall s m.address, reply⟩ ∉ said
  unsent : ∀ m ∈ rest, m.address ∉ (submissions said).map Prod.fst
  nodup : ((submissions said).map Prod.fst).Nodup
  unknown : known = none → submissions said = [] ∧ ∀ fee, ⟨.suggestedFeeCap, .ok fee⟩ ∉ said
  cap : ∀ fee, known = some fee → CapOf gas said fee ∧ ∀ x ∈ submissions said, x.2.gasFeeCap = fee

variable {s : Snapshot} {gas : GasSettings} {node : Address} {now : UInt64} {m : MinipoolDetails}
  {rest : List MinipoolDetails} {said log : List (Exchange Chain)} {known : FeeCap} {fee : Word}

/-- Nothing has been said. -/
theorem standing_nil : Standing s gas rest [] none :=
  ⟨fun _ _ _ => nofun, fun _ _ => nofun, .nil, fun _ => ⟨rfl, fun _ => nofun⟩, nofun⟩

theorem CapOf.append (h : CapOf gas said fee) (log : List (Exchange Chain)) :
    CapOf gas (said ++ log) fee := by
  rw [CapOf] at h ⊢
  cases hset : gas.maxFee with
  | some set => simpa only [hset] using h
  | none =>
    simp only [hset] at h ⊢
    exact List.mem_append_left _ h

namespace Standing

/-- Saying what is neither a reading of a minipool to come, nor a reduction, nor a fee cap. -/
theorem say (h : Standing s gas rest said known) {x : Exchange Chain}
    (hread : ∀ m ∈ rest, ∀ reply, x ≠ ⟨windowCall s m.address, reply⟩)
    (hsend : x.submission? = none) (hfee : ∀ fee, x ≠ ⟨.suggestedFeeCap, .ok fee⟩) :
    Standing s gas rest (said ++ [x]) known := by
  have hsame : submissions (said ++ [x]) = submissions said :=
    submissions_append_of_none said (List.forall_mem_singleton.2 hsend)
  refine ⟨?_, by rw [hsame]; exact h.unsent, by rw [hsame]; exact h.nodup, ?_, ?_⟩
  · intro m hm reply hmem
    rcases List.mem_append.1 hmem with hmem | hmem
    · exact h.unread m hm reply hmem
    · exact hread m hm reply (List.mem_singleton.1 hmem).symm
  · intro hknown
    rw [hsame]
    refine ⟨(h.unknown hknown).1, fun fee hmem => ?_⟩
    rcases List.mem_append.1 hmem with hmem | hmem
    · exact (h.unknown hknown).2 fee hmem
    · exact hfee fee (List.mem_singleton.1 hmem).symm
  · intro fee hknown
    rw [hsame]
    exact ⟨(h.cap fee hknown).1.append _, (h.cap fee hknown).2⟩

/-- The cap that is known, or else the one that is set, is the cap of the pass. -/
theorem settle (h : Standing s gas rest said known) (hfee : known.or gas.maxFee = some fee) :
    Standing s gas rest said (some fee) := by
  refine ⟨h.unread, h.unsent, h.nodup, nofun, ?_⟩
  rintro fee' ⟨⟩
  cases known with
  | none =>
    refine ⟨?_, ?_⟩
    · have hset : gas.maxFee = some fee := hfee
      rw [CapOf, hset]
    · rw [(h.unknown rfl).1]
      exact nofun
  | some k =>
    cases hfee
    exact h.cap fee rfl

/-- A cap that has been suggested is the cap of the pass if none is set. -/
theorem suggest (h : Standing s gas rest said none) (hset : gas.maxFee = none) (fee : Word) :
    Standing s gas rest (said ++ [⟨.suggestedFeeCap, .ok fee⟩]) (some fee) := by
  have hsame : submissions (said ++ [⟨.suggestedFeeCap, .ok fee⟩]) = [] := by
    rw [submissions_append, (h.unknown rfl).1]
    rfl
  refine ⟨?_, by rw [hsame]; exact fun _ _ => nofun, by rw [hsame]; exact .nil, nofun, ?_⟩
  · intro m hm reply hmem
    rcases List.mem_append.1 hmem with hmem | hmem
    · exact h.unread m hm reply hmem
    · cases List.mem_singleton.1 hmem
  · rintro fee' ⟨⟩
    rw [hsame]
    refine ⟨?_, nofun⟩
    rw [CapOf, hset]
    exact List.mem_append_right _ List.mem_cons_self

/-- A reduction is sent at the cap of the pass. -/
theorem send (h : Standing s gas rest said (some fee))
    (hunsent : m.address ∉ (submissions said).map Prod.fst)
    (hfresh : m.address ∉ rest.map MinipoolDetails.address) (info : GasInfo)
    (reply : Except Failure Hash) :
    Standing s gas rest
      (said ++ [⟨.sendReduction m.address (options gas fee info), reply⟩]) (some fee) := by
  have hadded : submissions (said ++ [⟨.sendReduction m.address (options gas fee info), reply⟩]) =
      submissions said ++ [(m.address, options gas fee info)] := submissions_append _ _
  refine ⟨?_, ?_, ?_, nofun, ?_⟩
  · intro m' hm' reply' hmem
    rcases List.mem_append.1 hmem with hmem | hmem
    · exact h.unread m' hm' reply' hmem
    · cases List.mem_singleton.1 hmem
  · intro m' hm' hmem
    rw [hadded, List.map_append, List.mem_append] at hmem
    rcases hmem with hmem | hmem
    · exact h.unsent m' hm' hmem
    · exact hfresh (List.mem_map.2 ⟨m', hm', List.mem_singleton.1 hmem⟩)
  · rw [hadded, List.map_append]
    refine List.nodup_append.2 ⟨h.nodup, List.pairwise_singleton _ _, ?_⟩
    intro a ha b hb heq
    obtain rfl : b = m.address := List.mem_singleton.1 hb
    exact hunsent (heq ▸ ha)
  · rintro fee' ⟨⟩
    refine ⟨(h.cap fee rfl).1.append _, fun x hx => ?_⟩
    rw [hadded, List.mem_append] at hx
    rcases hx with hx | hx
    · exact (h.cap fee rfl).2 x hx
    · rw [List.mem_singleton.1 hx]
      rfl

end Standing

/-! ## One visit -/

/-- Saying only what is allowed leads to a state of the pass. -/
structure Leads (s : Snapshot) (gas : GasSettings) (node : Address) (now : UInt64)
    (rest : List MinipoolDetails) (said log : List (Exchange Chain)) (known : FeeCap) : Prop where
  orderly : Orderly (Allowed s gas node now) said log
  standing : Standing s gas rest (said ++ log) known

theorem Leads.trans {l l' : List (Exchange Chain)} {rest' : List MinipoolDetails}
    {known known' : FeeCap} (h : Leads s gas node now rest said l known)
    (h' : Leads s gas node now rest' (said ++ l) l' known') :
    Leads s gas node now rest' said (l ++ l') known' :=
  ⟨h.orderly.append h'.orderly, List.append_assoc said l l' ▸ h'.standing⟩

/-- A cap is asked for only while there is none. -/
theorem Priced.leads {asked : List (Exchange Chain)} (hpriced : Priced gas known asked fee)
    (h : Standing s gas rest said known) : Leads s gas node now rest said asked (some fee) := by
  cases hpriced with
  | settled _ hfee =>
    refine ⟨trivial, ?_⟩
    rw [List.append_nil]
    exact h.settle hfee
  | suggested _ hnone =>
    obtain ⟨rfl, hset⟩ := Option.or_eq_none_iff.1 hnone
    exact ⟨⟨(h.unknown rfl).2, trivial⟩, h.suggest hset fee⟩

theorem Priced.said_eq {asked : List (Exchange Chain)} (hpriced : Priced gas known asked fee) :
    ∀ x ∈ asked, x = ⟨.suggestedFeeCap, .ok fee⟩ := by
  cases hpriced with
  | settled => exact nofun
  | suggested => exact List.forall_mem_singleton.2 rfl

/-- What is known of a request when its reduction is sent. -/
theorem timely_of_ready {reply : Except Failure (List Word)} {w : BondWindow} {elapsed : UInt64}
    (hread : windowOf s m.address reply = .ok w)
    (hready : w.classify m now = .readyToReduce elapsed)
    (hsend : w.decide elapsed fee gas.threshold = .submit ∨
      w.decide elapsed fee gas.threshold = .force) :
    ∃ t : UInt64, reply = .ok [.ofUInt64 t, 0] ∧ t ≠ 0 ∧
      let start := s.parts.network.bondReductionWindowStart.toNat
      let length := s.parts.network.bondReductionWindowLength.toNat
      let elapsed := now.toNat - t.toNat
      start < elapsed ∧ elapsed < start + length ∧
        (fee < gas.threshold ∨ min (start + length) (2 ^ 64 - 1) - elapsed < length / 2) := by
  obtain ⟨t, c, rfl, rfl⟩ := windowOf_eq_ok_iff.1 hread
  obtain ⟨hrequested, hcancelled, -, -, hstart, hfinish, rfl⟩ :=
    BondWindow.classify_eq_ready_iff.1 hready
  have hc : c = 0 := by simpa [Snapshot.bondWindow] using hcancelled
  rw [UInt64.lt_iff_toNat_lt, UInt64Sat.toNat_sub] at hstart
  rw [UInt64.lt_iff_toNat_lt, UInt64Sat.toNat_sub, BondWindow.toNat_finish] at hfinish
  refine ⟨t, by rw [hc], hrequested, hstart, Nat.lt_of_lt_of_le hfinish (Nat.min_le_left _ _), ?_⟩
  rcases hsend with hsend | hsend
  · exact .inl (BondWindow.decide_eq_submit_iff.1 hsend)
  · have hlate := (BondWindow.decide_eq_force_iff.1 hsend).2
    rw [UInt64Sat.toNat_sub, BondWindow.toNat_finish] at hlate
    exact .inr hlate

section Visit
variable {known' : FeeCap} {w : BondWindow} {reply : Except Failure (List Word)} {elapsed : UInt64}

/-- **What is sent is due.** -/
theorem due_of_ready {info : GasInfo} (hm : m ∈ s.minipoolsOf node)
    (h : Standing s gas rest said (some fee))
    (hunsent : m.address ∉ (submissions said).map Prod.fst)
    (hsaid : ∀ reply', ⟨windowCall s m.address, reply'⟩ ∈ said ↔ reply' = reply)
    (hestimate : ⟨.estimateReduceBond m.address, .ok info⟩ ∈ said)
    (hread : windowOf s m.address reply = .ok w)
    (hready : w.classify m now = .readyToReduce elapsed)
    (hsend : w.decide elapsed fee gas.threshold = .submit ∨
      w.decide elapsed fee gas.threshold = .force) :
    Due s gas node now said m.address (options gas fee info) := by
  obtain ⟨t, rfl, hrequested, htimely⟩ := timely_of_ready hread hready hsend
  obtain ⟨-, -, hbond, hstatus, -, -, -⟩ := BondWindow.classify_eq_ready_iff.1 hready
  refine ⟨hunsent, ⟨m, hm, rfl, hstatus, by rw [hbond, toNat_reducibleBond]⟩,
    ⟨t, hsaid, hrequested, htimely⟩, (h.cap fee rfl).1, rfl, ?_⟩
  rw [LimitOf]
  cases hset : gas.gasLimit with
  | some set => rw [options, hset, Option.getD_some]
  | none => exact ⟨info, hestimate, by rw [options, hset, Option.getD_none]⟩

/-- The reduction of a bond that is ready, once the request of its minipool has been read. -/
theorem Reduction.leads {result : Except Failure BondOutcome}
    (hreduction : Reduction gas w m.address elapsed known log (known', result))
    (hm : m ∈ s.minipoolsOf node) (hfresh : m.address ∉ rest.map MinipoolDetails.address)
    (h : Standing s gas rest said known)
    (hunsent : m.address ∉ (submissions said).map Prod.fst)
    (hsaid : ∀ reply', ⟨windowCall s m.address, reply'⟩ ∈ said ↔ reply' = reply)
    (hread : windowOf s m.address reply = .ok w)
    (hready : w.classify m now = .readyToReduce elapsed) :
    Leads s gas node now rest said log known' := by
  have estimate : ∀ r, Leads s gas node now rest said [⟨.estimateReduceBond m.address, r⟩] known :=
    fun r => ⟨⟨trivial, trivial⟩, h.say (fun _ _ _ => nofun) rfl (fun _ => nofun)⟩
  cases hreduction with
  | unestimated f e => exact estimate (.error f)
  | unpriced info f e hunknown =>
    obtain ⟨rfl, -⟩ := Option.or_eq_none_iff.1 hunknown
    have hestimate := estimate (.ok info)
    exact hestimate.trans ⟨⟨(hestimate.standing.unknown rfl).2, trivial⟩,
      hestimate.standing.say (fun _ _ _ => nofun) rfl (fun _ => nofun)⟩
  | deferred info asked fee untilForced hpriced hdefer =>
    have hestimate := estimate (.ok info)
    exact hestimate.trans (hpriced.leads hestimate.standing)
  | sent info asked fee answer result hpriced hsend =>
    have hestimate := estimate (.ok info)
    have hcap := hestimate.trans (hpriced.leads hestimate.standing)
    -- between the reading and the sending nothing is read of a minipool, and nothing is sent
    have hquiet : ∀ x ∈ [⟨.estimateReduceBond m.address, .ok info⟩] ++ asked,
        Exchange.submission? x = none := by
      intro x hx
      rcases List.mem_cons.1 hx with rfl | hx
      · rfl
      · rw [hpriced.said_eq x hx]
        rfl
    have hunsent' := hunsent
    rw [← submissions_append_of_none said hquiet] at hunsent'
    refine hcap.trans ⟨⟨?_, trivial⟩, hcap.standing.send hunsent' hfresh info answer⟩
    refine due_of_ready hm hcap.standing hunsent' (fun reply' => ?_) (by simp) hread hready hsend
    rw [List.mem_append, hsaid]
    refine or_iff_left fun hmem => ?_
    rcases List.mem_cons.1 hmem with hmem | hmem
    · cases hmem
    · cases hpriced.said_eq _ hmem

/-- **A visit says only what is allowed.** -/
theorem Visit.leads {outcome : Option BondOutcome}
    (hvisit : Visit s gas now m known log (known', outcome)) (hm : m ∈ s.minipoolsOf node)
    (hfresh : m.address ∉ rest.map MinipoolDetails.address)
    (h : Standing s gas (m :: rest) said known) : Leads s gas node now rest said log known' := by
  have hrest : Standing s gas rest said known :=
    { h with
      unread := fun m' hm' => h.unread m' (List.mem_cons_of_mem m hm')
      unsent := fun m' hm' => h.unsent m' (List.mem_cons_of_mem m hm') }
  have read : ∀ reply, Leads s gas node now rest said [⟨windowCall s m.address, reply⟩] known := by
    refine fun reply => ⟨⟨trivial, trivial⟩, hrest.say ?_ rfl (fun _ => nofun)⟩
    intro m' hm' reply' heq
    have haddress := windowCall_inj (congrArg Sigma.fst heq)
    exact hfresh (haddress ▸ List.mem_map_of_mem hm')
  cases hvisit with
  | unread reply e hread => exact read reply
  | idle reply w hread hidle => exact read reply
  | waiting reply w remaining hread hwaiting => exact read reply
  | reduced reply w elapsed hread hready hreduction =>
    refine (read reply).trans (hreduction.leads hm hfresh (read reply).standing ?_ ?_ hread hready)
    · rw [submissions_append_of_none said (List.forall_mem_singleton.2 rfl)]
      exact h.unsent m List.mem_cons_self
    · intro reply'
      rw [List.mem_append, List.mem_singleton]
      refine (or_iff_right (h.unread m List.mem_cons_self reply')).trans ?_
      constructor
      · rintro ⟨⟩
        rfl
      · rintro rfl
        rfl

end Visit

/-! ## A pass -/

/-- **A pass says only what is allowed**, whatever is replied. -/
theorem leads_of_runs {ms : List MinipoolDetails} {outcomes : List MinipoolOutcome}
    (h : (processAll s gas now ms known).Runs log outcomes) (hms : ms ⊆ s.minipoolsOf node)
    (hnodup : (ms.map MinipoolDetails.address).Nodup) (hstanding : Standing s gas ms said known) :
    ∃ known', Leads s gas node now [] said log known' := by
  induction ms generalizing log said known outcomes with
  | nil =>
    obtain ⟨rfl, rfl⟩ := Program.runs_pure.1 h
    exact ⟨known, trivial, by rwa [List.append_nil]⟩
  | cons m ms ih =>
    obtain ⟨l₁, l₂, known₁, outcome, rest, hvisit, hrest, rfl, rfl⟩ := runs_processAll_cons h
    obtain ⟨hm, hms⟩ := List.cons_subset.1 hms
    obtain ⟨hfresh, hnodup⟩ := List.nodup_cons.1 hnodup
    have hfirst := hvisit.leads hm hfresh hstanding
    obtain ⟨known₂, hlater⟩ := ih hrest hms hnodup hfirst.standing
    exact ⟨known₂, hfirst.trans hlater⟩

theorem nodup_minipoolsOf (s : Snapshot) (node : Address) :
    ((s.minipoolsOf node).map MinipoolDetails.address).Nodup := by
  rw [Snapshot.minipoolsOf_eq]
  exact s.coherent.minipools_nodup.sublist (List.filter_sublist.map _)

theorem run_of_not_isAtlasDeployed (h : s.parts.isAtlasDeployed = false) :
    run s gas node now = pure [] := by
  rw [run, if_neg (Bool.eq_false_iff.1 h)]

/-- **A pass sends only reductions that are due.** -/
theorem leads_of_run {outcomes : List MinipoolOutcome}
    (h : (run s gas node now).Runs log outcomes) :
    ∃ known, Leads s gas node now [] [] log known := by
  rw [run] at h
  split at h
  · exact leads_of_runs h (List.Subset.refl _) (nodup_minipoolsOf s node) standing_nil
  · obtain ⟨rfl, rfl⟩ := Program.runs_pure.1 h
    exact ⟨none, trivial, standing_nil⟩

/-- **A pass never submits wrongly.** Whatever the chain replies, and whichever calls fail: every
reduction that is sent is due by what was read before it, at most one is sent for a minipool, and
all are sent at one fee cap. A cap that has been suggested is not asked for again. Before Atlas
nothing is asked and nothing done. -/
theorem submissions_are_due (s : Snapshot) (gas : GasSettings) (node : Address) (now : UInt64)
    (answer : List (Exchange Chain) → (c : Chain.Call) → Chain.Reply c) :
    let pass := (run s gas node now).runIn (.recording answer) []
    (∀ before minipool options reply after,
      pass.2 = before ++ ⟨.sendReduction minipool options, reply⟩ :: after →
        Due s gas node now before minipool options) ∧
    ((submissions pass.2).map Prod.fst).Nodup ∧
    (∀ x ∈ submissions pass.2, ∀ y ∈ submissions pass.2, x.2.gasFeeCap = y.2.gasFeeCap) ∧
    (∀ before fee after, pass.2 = before ++ ⟨.suggestedFeeCap, .ok fee⟩ :: after →
      ∀ reply, ⟨.suggestedFeeCap, reply⟩ ∉ after) ∧
    (s.parts.isAtlasDeployed = false → pass = ([], [])) := by
  intro pass
  obtain ⟨log, hlog, hruns, -⟩ := Program.runs_runIn answer (run s gas node now) []
  obtain ⟨known, horderly, hstanding⟩ := leads_of_run hruns
  obtain rfl : log = pass.2 := hlog.symm
  refine ⟨?_, hstanding.nodup, ?_, ?_, ?_⟩
  · intro before minipool options reply after hsplit
    exact horderly.allowed_of_eq_append hsplit
  · cases known with
    | none =>
      have hnone : submissions pass.2 = [] := (hstanding.unknown rfl).1
      rw [hnone]
      exact nofun
    | some fee =>
      intro x hx y hy
      rw [(hstanding.cap fee rfl).2 x hx, (hstanding.cap fee rfl).2 y hy]
  · intro before fee after hsplit reply hmem
    obtain ⟨l₁, l₂, rfl⟩ := List.append_of_mem hmem
    have hagain : pass.2 = (before ++ ⟨.suggestedFeeCap, .ok fee⟩ :: l₁) ++
        ⟨.suggestedFeeCap, reply⟩ :: l₂ := by rw [hsplit, List.append_assoc, List.cons_append]
    refine horderly.allowed_of_eq_append hagain fee ?_
    simp
  · intro hatlas
    change (run s gas node now).runIn (.recording answer) [] = ([], [])
    rw [run_of_not_isAtlasDeployed hatlas]
    rfl

/-- A minipool of node 1 that could be reduced. -/
def reducible (n : Nat) : MinipoolDetails :=
  ⟨.ofNat n, true, .ofNat 1, .staking, .ofNat n, etherToWei 16, etherToWei 16, 0, 0, 0, 0, 0, 0⟩

/-- Node 1 has three minipools. A request has to wait for half a day, and is good for another
half. -/
def threeParts : SnapshotParts where
  elBlock := 77
  slot := 2000
  beaconConfig := ⟨0, 12, 32⟩
  isAtlasDeployed := true
  network := {
    bondReductionWindowStart := 43200, bondReductionWindowLength := 43200 }
  nodes := [⟨.ofNat 1, true, 0, 0, false, 0⟩]
  minipools := [reducible 2, reducible 3, reducible 4]
  validators := .empty

def threeMinipools : Snapshot := .ofCoherent threeParts (by decide +kernel)

/-- Requests for all three, the second a short while ago. Gas is dear. -/
def threeRequests : InMemory.Contracts :=
  { InMemory.Contracts.initial with
    reduceBondTimes := .ofList [(.ofNat 2, 1000000), (.ofNat 3, 1064800), (.ofNat 4, 1000000)]
    gas := ⟨100000, 150000⟩
    suggestedFeeCap := gweiToWei 300 }

/-- Late in their windows the first and the last are forced. -/
theorem two_of_three_are_due :
    let gas : GasSettings := ⟨gweiToWei 150, none, gweiToWei 2, none⟩
    let pass := (run threeMinipools gas (.ofNat 1) 1064900).runIn
      (.recording fun _ call => threeRequests.answer call) []
    let options : TxOptions := ⟨gweiToWei 300, gweiToWei 2, 150000⟩
    submissions pass.2 = [(.ofNat 2, options), (.ofNat 4, options)] ∧
      ∃ before, before <+: pass.2 ∧
        Due threeMinipools gas (.ofNat 1) 1064900 before (.ofNat 4) options := by
  intro gas pass options
  have hsent : submissions pass.2 = [(.ofNat 2, options), (.ofNat 4, options)] := by decide +kernel
  have hlast : (.ofNat 4, options) ∈ submissions pass.2 := by
    rw [hsent]
    exact List.mem_cons_of_mem _ List.mem_cons_self
  obtain ⟨before, reply, after, hsplit⟩ := eq_append_of_mem_submissions hlast
  refine ⟨hsent, before, ⟨_, hsplit.symm⟩, ?_⟩
  exact (submissions_are_due threeMinipools gas (.ofNat 1) 1064900 _).1 _ _ _ reply after hsplit

end BondPass
end PoolKeeper
