/-
A snapshot is the state at its block, whole and in order (`build_is_faithful`):
cutting the lists into pages, reading them in any order under any limit and
putting them together again leaves no trace.

`ChainState` and `BeaconState` are what there is to be read, and `ServedBy`
says that it is what the chain and the consensus layer reply.
-/
import PoolKeeper.InMemory.Beacon
import PoolKeeper.InMemory.Chain
import PoolKeeper.Proofs.State.Coherence
import PoolKeeper.Proofs.State.Course
import PoolKeeper.Proofs.State.Pages
import PoolKeeper.Proofs.State.Settings

namespace PoolKeeper.Snapshot.Build
open InMemory (Contracts Consensus)
open SnapshotParts (Coherent keysOf)

/-- What the contracts hold at a block. -/
structure ChainState where
  isAtlasDeployed : Bool
  setting : Setting → Word
  nodes : List NodeDetails
  minipools : List MinipoolDetails
  /-- How a balance of a minipool divides. -/
  share : Address → Word → MinipoolShares

/-- What the consensus layer knows of a slot that has a block. -/
structure BeaconState where
  block : BeaconBlock
  config : BeaconConfig
  /-- The validators with some keys, as far as they are known. -/
  validators : List Pubkey → Validators

/-- The chain replies what it holds at a block: pages are the slices asked for, and shares stand in
the order of the balances. -/
structure ChainState.ServedBy (st : ChainState) (block : UInt64)
    (chain : List (Exchange World) → (c : Chain.Call) → Chain.Reply c) : Prop where
  version : ∀ log, chain log (.isAtlasDeployed block) = .ok st.isAtlasDeployed
  counts : ∀ log, chain log (.readWords [.nodeCount, .minipoolCount] (some block)) =
    .ok [BitVec.ofNat 256 st.nodes.length, BitVec.ofNat 256 st.minipools.length]
  setting : ∀ log, ∀ s ∈ Setting.ofVersion st.isAtlasDeployed,
    chain log (.readWords [.setting s] (some block)) = .ok [st.setting s]
  nodes : ∀ log offset limit,
    chain log (.nodeDetails offset limit block) = .ok (slice st.nodes offset limit)
  minipools : ∀ log offset limit,
    chain log (.minipoolDetails offset limit block) = .ok (slice st.minipools offset limit)
  shares : ∀ log balances, (∀ b ∈ balances, b.1 ∈ st.minipools.map MinipoolDetails.address) →
    chain log (.minipoolShares balances block) = .ok (balances.map fun b => st.share b.1 b.2)

/-- The consensus layer replies what it knows. -/
structure BeaconState.ServedBy (be : BeaconState) (slot : UInt64)
    (beacon : List (Exchange World) → (c : Beacon.Call) → Beacon.Reply c) : Prop where
  block : ∀ log, beacon log (.block slot) = .ok (some be.block)
  config : ∀ log, beacon log .config = .ok be.config
  validators : ∀ log keys, beacon log (.validators keys slot) = .ok (be.validators keys)

/-- Every word fits: counts and whole numbers have 64 bits. -/
structure ChainState.Fits (st : ChainState) : Prop where
  nodes : st.nodes.length < 2 ^ 64
  minipools : st.minipools.length < 2 ^ 64
  settings : ∀ s ∈ Setting.ofVersion st.isAtlasDeployed,
    s.kind = .integer → (st.setting s).toNat < 2 ^ 64

/-- The balance of a validator in wei, zero if it is not known. -/
def weiOf (validators : Validators) (key : Pubkey) : Word :=
  match validators.get? key with
  | some v => BitVec.ofNat 256 (10 ^ 9 * v.balance.toNat)
  | none => 0

/-- A minipool with the shares of its own balance. -/
def ChainState.sharing (st : ChainState) (validators : Validators) (m : MinipoolDetails) :
    MinipoolDetails :=
  { m with
    nodeShareOfBalance := (st.share m.address (weiOf validators m.pubkey)).nodeShare
    userShareOfBalance := (st.share m.address (weiOf validators m.pubkey)).userShare }

/-- What a snapshot of a slot should hold: the state of the chain at the block of the slot, and the
validators of its minipools as the consensus layer knows them. -/
def wholeState (st : ChainState) (be : BeaconState) (slot : UInt64) : SnapshotParts where
  elBlock := be.block.executionBlock
  slot
  beaconConfig := be.config
  isAtlasDeployed := st.isAtlasDeployed
  network := .ofWords fun s => if s ∈ Setting.ofVersion st.isAtlasDeployed then st.setting s else 0
  nodes := st.nodes
  minipools := st.minipools.map (st.sharing (be.validators (keysOf st.minipools)))
  validators := be.validators (keysOf st.minipools)

/-! ## Parts of a state -/

/-- What a part of a state is. -/
def ChainState.content (st : ChainState) : Part → PartContent
  | .setting s => .setting s (st.setting s)
  | .nodes offset limit => .nodes (slice st.nodes offset limit)
  | .minipools offset limit => .minipools (slice st.minipools offset limit)

/-- The parts of a state when pages have a size. -/
def ChainState.parts (st : ChainState) (pageSize : UInt64) : List Part :=
  Part.all st.isAtlasDeployed (.ofNat st.nodes.length) (.ofNat st.minipools.length) pageSize

section Parts
variable (st : ChainState) {pageSize : UInt64}

theorem settings_parts :
    PartContent.settings ((st.parts pageSize).map st.content) =
      (Setting.ofVersion st.isAtlasDeployed).map fun s => (s, st.setting s) := by
  simp [PartContent.settings, ChainState.parts, Part.all, ChainState.content, Function.comp_def]

variable {st}

theorem flatMap_nothing {α β : Type} (xs : List α) : (xs.flatMap fun _ => ([] : List β)) = [] :=
  List.flatMap_eq_nil_iff.2 fun _ _ => rfl

theorem allNodes_parts (hfits : st.Fits) (hpos : 0 < pageSize.toNat) :
    PartContent.allNodes ((st.parts pageSize).map st.content) = st.nodes := by
  have hpages := flatMap_slice_pages hfits.nodes hpos
  simpa [PartContent.allNodes, ChainState.parts, Part.all, ChainState.content, Function.comp_def,
    List.flatMap_map, flatMap_nothing] using hpages

theorem allMinipools_parts (hfits : st.Fits) (hpos : 0 < pageSize.toNat) :
    PartContent.allMinipools ((st.parts pageSize).map st.content) = st.minipools := by
  have hpages := flatMap_slice_pages hfits.minipools hpos
  simpa [PartContent.allMinipools, ChainState.parts, Part.all, ChainState.content,
    Function.comp_def, List.flatMap_map, flatMap_nothing] using hpages

end Parts

/-! ## Shares of a state -/

theorem keysOf_sharing (st : ChainState) (validators : Validators) (ms : List MinipoolDetails) :
    keysOf (ms.map (st.sharing validators)) = keysOf ms := by
  rw [keysOf, keysOf, List.filter_map, List.map_map]
  rfl

/-- The shares of minipools are no concern of whether parts agree. -/
theorem coherent_sharing {st : ChainState} (h : Coherent st.nodes st.minipools)
    (validators : Validators) :
    Coherent st.nodes (st.minipools.map (st.sharing validators)) where
  nodes_nodup := h.nodes_nodup
  minipools_nodup := by
    rw [List.map_map]
    exact h.minipools_nodup
  node_listed := by
    intro m hm
    obtain ⟨m', hm', rfl⟩ := List.mem_map.1 hm
    exact h.node_listed m' hm'
  keys_nodup := by
    rw [keysOf_sharing]
    exact h.keys_nodup

theorem balance_eq_weiOf (validators : Validators) (m : MinipoolDetails) :
    balance validators m = weiOf validators m.pubkey := by
  rw [balance, weiOf]
  cases validators.get? m.pubkey with
  | none => rfl
  | some v =>
    change gweiToWei v.balance = _
    rw [gweiToWei, weiPerGwei, Nat.mul_comm]

/-- Shares in the order of the minipools reach each its own. -/
theorem withShares_balances (st : ChainState) (validators : Validators)
    (ms : List MinipoolDetails) :
    withShares ms ((ms.map fun m => (m.address, balance validators m)).map
      fun b => st.share b.1 b.2) = ms.map (st.sharing validators) := by
  rw [withShares, List.map_map, List.zipWith_map_right, List.zipWith_self]
  refine List.map_congr_left fun m _ => ?_
  rw [ChainState.sharing, ← balance_eq_weiOf]
  rfl

section Served
variable {st : ChainState} {be : BeaconState} {slot : UInt64} {plan : Plan}
  {chain : List (Exchange World) → (c : Chain.Call) → Chain.Reply c}
  {beacon : List (Exchange World) → (c : Beacon.Call) → Beacon.Reply c}
  {log : List (Exchange World)} {r : Except BuildFault Snapshot}

/-- What a build knows of a state before its first fan-out. -/
def openingOf (st : ChainState) (be : BeaconState) : Opening :=
  ⟨be.block, be.config, st.isAtlasDeployed, .ofNat st.nodes.length, .ofNat st.minipools.length⟩

theorem ofUInt64_ofNat {n : Nat} (h : n < 2 ^ 64) :
    Word.ofUInt64 (.ofNat n) = BitVec.ofNat 256 n := by
  rw [Word.ofUInt64, UInt64.toNat_ofNat_of_lt' h]

theorem openingOf_served (hst : st.ServedBy be.block.executionBlock chain)
    (hbe : be.ServedBy slot beacon) (hfits : st.Fits) :
    (openingOf st be).ServedBy slot (answers chain beacon) where
  block := hbe.block
  config := hbe.config
  version := hst.version
  counts before := by
    refine (hst.counts before).trans ?_
    rw [← ofUInt64_ofNat hfits.nodes, ← ofUInt64_ofNat hfits.minipools]
    rfl

theorem content_of_given {block : UInt64} (hst : st.ServedBy block chain) {pageSize : UInt64}
    {a : PartRead block} (hp : a.task ∈ st.parts pageSize)
    (hgiven : ∃ before, a.said.2 = answers chain beacon before a.said.1) :
    a.content = .ok (st.content a.task) := by
  obtain ⟨before, hreply⟩ := hgiven
  obtain ⟨p, reply⟩ := a
  cases p with
  | setting s =>
    have hs : s ∈ Setting.ofVersion st.isAtlasDeployed := by
      simpa [ChainState.parts, Part.all] using hp
    obtain rfl := hreply.trans (hst.setting before s hs)
    rfl
  | nodes offset limit =>
    obtain rfl := hreply.trans (hst.nodes before offset limit)
    rfl
  | minipools offset limit =>
    obtain rfl := hreply.trans (hst.minipools before offset limit)
    rfl

/-- What comes of all parts of a state. -/
theorem contents_of_given {block : UInt64} (hst : st.ServedBy block chain) {pageSize : UInt64}
    {reads : List (PartRead block)} (asked : reads.map Answered.task = st.parts pageSize)
    (hgiven : Given (answers chain beacon) (reads.map Answered.said)) :
    reads.map PartRead.content = ((st.parts pageSize).map st.content).map .ok := by
  rw [← asked, List.map_map, List.map_map]
  refine List.map_congr_left fun a ha => ?_
  have hp : a.task ∈ st.parts pageSize := asked ▸ List.mem_map_of_mem ha
  exact content_of_given hst hp (hgiven a.said (List.mem_map_of_mem ha))

/-- What the parts of a state amount to. -/
def detailsOf (st : ChainState) : Details where
  isAtlasDeployed := st.isAtlasDeployed
  network := .ofWords fun s => if s ∈ Setting.ofVersion st.isAtlasDeployed then st.setting s else 0
  nodes := st.nodes
  minipools := st.minipools

theorem gather_parts (hfits : st.Fits) {pageSize : UInt64} (hpos : 0 < pageSize.toNat) :
    (openingOf st be).gather ((st.parts pageSize).map st.content) = .ok (detailsOf st) := by
  refine Opening.gather_eq_ok_iff.2 ⟨(detailsOf st).network, ?_, ?_, ?_, ?_⟩
  · rw [settings_parts, details]
    change (NetworkDetails.ofValues _ st.isAtlasDeployed).mapError _ = _
    rw [NetworkDetails.ofValues_map hfits.settings]
    rfl
  · rw [allNodes_parts hfits hpos]
    exact (UInt64.toNat_ofNat_of_lt' hfits.nodes).symm
  · rw [allMinipools_parts hfits hpos]
    exact (UInt64.toNat_ofNat_of_lt' hfits.minipools).symm
  · rw [allNodes_parts hfits hpos, allMinipools_parts hfits hpos]
    rfl

theorem shares_of_given {block : UInt64} (hst : st.ServedBy block chain) {a : ShareRead block}
    (hsize : a.task.length < 2 ^ 64)
    (hlisted : ∀ b ∈ a.task, b.1 ∈ st.minipools.map MinipoolDetails.address)
    (hgiven : ∃ before, a.said.2 = answers chain beacon before a.said.1) :
    a.content = .ok (a.task.map fun b => st.share b.1 b.2) := by
  obtain ⟨before, hreply⟩ := hgiven
  refine (ShareRead.content_eq_ok_iff hsize).2 ⟨?_, List.length_map _⟩
  exact hreply.trans (hst.shares before a.task hlisted)

/-- What comes of all shares of a state. -/
theorem shareContents_of_given {block : UInt64} (hst : st.ServedBy block chain)
    {balances : List (Address × Word)}
    (hlisted : ∀ b ∈ balances, b.1 ∈ st.minipools.map MinipoolDetails.address)
    {reads : List (ShareRead block)}
    (asked : reads.map Answered.task = pieces plan.pageSize.toNat balances)
    (hgiven : Given (answers chain beacon) (reads.map Answered.said)) :
    reads.map ShareRead.content =
      ((pieces plan.pageSize.toNat balances).map (List.map fun b => st.share b.1 b.2)).map .ok := by
  rw [← asked, List.map_map, List.map_map]
  refine List.map_congr_left fun a ha => ?_
  refine shares_of_given hst (length_task_lt asked a ha) (fun b hb => hlisted b ?_)
    (hgiven a.said (List.mem_map_of_mem ha))
  have hpage : a.task ∈ pieces plan.pageSize.toNat balances := asked ▸ List.mem_map_of_mem ha
  rw [← flatten_pieces plan.pageSize_pos balances]
  exact List.mem_flatten_of_mem hpage hb

theorem map_ok_inj {ε α : Type} {xs ys : List α}
    (h : xs.map (Except.ok : α → Except ε α) = ys.map .ok) : xs = ys :=
  (List.map_inj_right fun _ _ => Except.ok.inj).1 h

/-- A good first fan-out has read the state. -/
theorem gathered_of_given (hst : st.ServedBy be.block.executionBlock chain)
    (hbe : be.ServedBy slot beacon) (hfits : st.Fits) (g : Gathered plan)
    (hgiven : Given (answers chain beacon) (g.log slot)) :
    g.opening = openingOf st be ∧ g.details = detailsOf st := by
  obtain ⟨o, reads, asked, outputs, contents, d, gathered⟩ := g
  obtain rfl : o = openingOf st be := (openingOf_served hst hbe hfits).eq hgiven.append_left
  have hcontents := contents_of_given hst asked hgiven.append_right
  obtain rfl := map_ok_inj (contents.symm.trans hcontents)
  exact ⟨rfl, Except.ok.inj (gathered.symm.trans (gather_parts hfits plan.pageSize_pos))⟩

theorem balances_listed {g : Gathered plan} (hdetails : g.details = detailsOf st)
    (validators : Validators) :
    ∀ b ∈ g.balances validators, b.1 ∈ st.minipools.map MinipoolDetails.address := by
  intro b hb
  rw [Gathered.balances, hdetails] at hb
  obtain ⟨m, hm, rfl⟩ := List.mem_map.1 hb
  exact List.mem_map_of_mem hm

/-- After a good first fan-out the shares read are those of the state. -/
theorem shareContents_of_gathered (hst : st.ServedBy be.block.executionBlock chain)
    (hbe : be.ServedBy slot beacon) (hfits : st.Fits) {g : Gathered plan}
    (hgiven : Given (answers chain beacon) (g.log slot)) {validators : Validators}
    {reads : List (ShareRead g.opening.block)}
    (asked : reads.map Answered.task = pieces plan.pageSize.toNat (g.balances validators))
    (hshares : Given (answers chain beacon) (reads.map Answered.said)) :
    reads.map ShareRead.content = ((pieces plan.pageSize.toNat (g.balances validators)).map
      (List.map fun b => st.share b.1 b.2)).map .ok := by
  obtain ⟨hopening, hdetails⟩ := gathered_of_given hst hbe hfits g hgiven
  have hblock : st.ServedBy g.opening.block chain := hopening ▸ hst
  exact shareContents_of_given hblock (balances_listed hdetails validators) asked hshares

/-- A course in which everything is as the state has it ends with the state. -/
theorem Course.eq_whole (hcourse : Course plan slot log r)
    (hgiven : Given (answers chain beacon) log) (hst : st.ServedBy be.block.executionBlock chain)
    (hbe : be.ServedBy slot beacon) (hfits : st.Fits) :
    r = assemble (wholeState st be slot) := by
  have hserved := openingOf_served hst hbe hfits
  cases hcourse with
  | unopened h => exact absurd h (hserved.not_unopened hgiven)
  | partFailed o reads asked a ha e he =>
    obtain rfl : o = openingOf st be := hserved.eq hgiven.append_left
    have hcontents := contents_of_given hst asked hgiven.append_right
    obtain ⟨output, hok⟩ := exists_ok_of_mem hcontents ha
    cases hok.symm.trans he
  | incomplete o reads asked outputs contents e he =>
    obtain rfl : o = openingOf st be := hserved.eq hgiven.append_left
    have hcontents := contents_of_given hst asked hgiven.append_right
    obtain rfl := map_ok_inj (contents.symm.trans hcontents)
    cases he.symm.trans (gather_parts hfits plan.pageSize_pos)
  | validatorsFailed g f =>
    obtain ⟨before, hreply⟩ := hgiven.append_right _ List.mem_cons_self
    cases hreply.trans (hbe.validators before _)
  | shareFailed g validators reads asked a ha e he =>
    have hcontents := shareContents_of_gathered hst hbe hfits hgiven.append_left asked
      fun x hx => hgiven.append_right x (List.mem_cons_of_mem _ hx)
    obtain ⟨output, hok⟩ := exists_ok_of_mem hcontents ha
    cases hok.symm.trans he
  | finished g validators reads asked shares contents =>
    have hcontents := shareContents_of_gathered hst hbe hfits hgiven.append_left asked
      fun x hx => hgiven.append_right x (List.mem_cons_of_mem _ hx)
    obtain rfl := map_ok_inj (contents.symm.trans hcontents)
    obtain ⟨before, hreply⟩ := hgiven.append_right _ List.mem_cons_self
    cases hreply.trans (hbe.validators before _)
    rw [← List.map_flatten, flatten_pieces plan.pageSize_pos]
    obtain ⟨hopening, hdetails⟩ := gathered_of_given hst hbe hfits g hgiven.append_left
    have hkeys : g.keys = keysOf st.minipools :=
      congrArg (fun d : Details => keysOf d.minipools) hdetails
    rw [Gathered.snapshotParts, Gathered.balances, hopening, hdetails, hkeys, wholeState,
      ← withShares_balances]
    rfl

end Served

/-! ## A state held in memory -/

/-- The state that contracts in memory hold. -/
def ChainState.ofContracts (c : Contracts) : ChainState where
  isAtlasDeployed := c.isAtlasDeployed
  setting s := (c.settings.lookup s).getD 0
  nodes := c.nodes
  minipools := c.minipools
  share a balance := (c.shares (a, balance)).toOption.getD ⟨0, 0⟩

/-- Contracts in memory that fail nowhere and cut nothing short. -/
structure Sound (c : Contracts) : Prop where
  failures : c.failures = []
  nodeCount : c.nodeCount = none
  minipoolCount : c.minipoolCount = none
  maxWords : c.maxWords = none
  maxShares : c.maxShares = none

/-- What consensus in memory knows of a slot. -/
def BeaconState.ofConsensus (b : Consensus) (block : BeaconBlock) : BeaconState where
  block
  config := b.config
  validators keys := b.validators.filter fun k _ => keys.contains k

theorem shares_of_listed {c : Contracts} {b : Address × Word}
    (h : b.1 ∈ c.minipools.map MinipoolDetails.address) :
    c.shares b = .ok ((ChainState.ofContracts c).share b.1 b.2) := by
  obtain ⟨m, hm, haddress⟩ := List.mem_map.1 h
  have hok : ∃ shares, c.shares b = .ok shares := by
    rw [Contracts.shares]
    cases hfind : c.minipools.find? (·.address = b.1) with
    | none =>
      have := List.find?_eq_none.1 hfind m hm
      simp [haddress] at this
    | some m' =>
      simp only
      split
      · exact ⟨_, rfl⟩
      · exact ⟨_, rfl⟩
  obtain ⟨shares, hshares⟩ := hok
  have hshare : (ChainState.ofContracts c).share b.1 b.2 = shares := by
    change (c.shares b).toOption.getD ⟨0, 0⟩ = shares
    rw [hshares]
    rfl
  rw [hshares, hshare]

theorem mapM_shares {c : Contracts} {balances : List (Address × Word)}
    (h : ∀ b ∈ balances, b.1 ∈ c.minipools.map MinipoolDetails.address) :
    balances.mapM c.shares =
      .ok (balances.map fun b => (ChainState.ofContracts c).share b.1 b.2) := by
  induction balances with
  | nil => rfl
  | cons b balances ih =>
    obtain ⟨hb, hrest⟩ := List.forall_mem_cons.1 h
    rw [List.mapM_cons, shares_of_listed hb, ih hrest]
    rfl

section Sound
variable {c : Contracts} (h : Sound c)
include h

theorem guarded_of_sound {α : Type} (key : String) (r : Except Failure α) :
    c.guarded key r = r := by
  rw [Contracts.guarded, h.failures]
  rfl

/-- Contracts in memory reply what they hold, whatever the block. -/
theorem servedBy_ofContracts (block : UInt64) :
    (ChainState.ofContracts c).ServedBy block fun _ call => c.answer call where
  version _ := guarded_of_sound h _ _
  counts _ := by
    have hnodes : c.read .nodeCount = .ok (BitVec.ofNat 256 c.nodes.length) := by
      rw [Contracts.read, guarded_of_sound h, h.nodeCount]
      rfl
    have hminipools : c.read .minipoolCount = .ok (BitVec.ofNat 256 c.minipools.length) := by
      rw [Contracts.read, guarded_of_sound h, h.minipoolCount]
      rfl
    rw [Contracts.answer, h.maxWords, List.mapM_cons, List.mapM_cons, hnodes, hminipools]
    rfl
  setting _ s _ := by
    have hs : c.read (.setting s) = .ok ((c.settings.lookup s).getD 0) := by
      rw [Contracts.read, guarded_of_sound h]
    rw [Contracts.answer, h.maxWords, List.mapM_cons, hs]
    rfl
  nodes _ offset limit := guarded_of_sound h _ _
  minipools _ offset limit := guarded_of_sound h _ _
  shares _ balances hlisted := by
    rw [Contracts.answer, guarded_of_sound h, h.maxShares, mapM_shares hlisted]
    rfl

end Sound

theorem servedBy_ofConsensus {b : Consensus} {slot block : UInt64} (hfailures : b.failures = [])
    (hblock : b.blocks.lookup slot = some block) :
    (BeaconState.ofConsensus b ⟨slot, block⟩).ServedBy slot fun _ call => b.answer call where
  block _ := by
    rw [Consensus.answer, Consensus.guarded, hfailures, hblock]
    rfl
  config _ := by
    rw [Consensus.answer, Consensus.guarded, hfailures]
    rfl
  validators _ keys := by
    rw [Consensus.answer, Consensus.guarded, hfailures]
    rfl

/-- Two nodes with three minipools, the last of which has no key yet. -/
def twoNodes : Contracts :=
  { Contracts.initial with
    nodes := [node 1, node 2]
    minipools := [minipool 16 1 161, minipool 17 1 162, minipool 32 2 0] }
where
  node (n : Nat) : NodeDetails := ⟨.ofNat n, true, 0, 0, false, 0⟩
  minipool (n owner key : Nat) : MinipoolDetails :=
    ⟨.ofNat n, true, .ofNat owner, .staking, .ofNat key, etherToWei 8, etherToWei 24, 0, 0, 0, 0,
      0, 0⟩

/-- Slot 100 carries block 5000. Of the keys of `twoNodes` one is known. -/
def oneValidator : Consensus :=
  { Consensus.withBlock 100 5000 with
    validators := .ofList [
      (.ofNat 162, ⟨.ofNat 162, 7, 32000000000, 0, farFutureEpoch, false, "active"⟩)] }

theorem coherent_twoNodes : Coherent twoNodes.nodes twoNodes.minipools :=
  ⟨by decide, by decide, by decide, by decide +kernel⟩

theorem fits_twoNodes : (ChainState.ofContracts twoNodes).Fits := by
  have hsettings : ∀ s, (ChainState.ofContracts twoNodes).setting s = 0 := fun _ => rfl
  refine ⟨by decide, by decide, fun s _ _ => ?_⟩
  rw [hsettings s]
  decide

theorem servedBy_twoNodes : (ChainState.ofContracts twoNodes).ServedBy 5000
    fun _ call => twoNodes.answer call :=
  servedBy_ofContracts ⟨rfl, rfl, rfl, rfl, rfl⟩ 5000

theorem servedBy_oneValidator : (BeaconState.ofConsensus oneValidator ⟨100, 5000⟩).ServedBy 100
    fun _ call => oneValidator.answer call :=
  servedBy_ofConsensus rfl (by decide)

/-! ## The whole state -/

/-- Where the state is replied as it is, a build makes the snapshot that holds it. -/
theorem build_of_served {slot : UInt64} {st : ChainState} {be : BeaconState}
    {chain : List (Exchange World) → (c : Chain.Call) → Chain.Reply c}
    {beacon : List (Exchange World) → (c : Beacon.Call) → Beacon.Reply c}
    (hcoherent : Coherent st.nodes st.minipools) (hfits : st.Fits)
    (hst : st.ServedBy be.block.executionBlock chain) (hbe : be.ServedBy slot beacon)
    (plan : Plan) :
    ((Snapshot.build plan slot).runIn (.recording (answers chain beacon)) []).1 =
      .ok (.ofCoherent (wholeState st be slot) (coherent_sharing hcoherent _)) := by
  have hend := (course_of_runIn plan slot (answers chain beacon)).1.eq_whole
    (given_runIn plan slot _) hst hbe hfits
  exact hend.trans (assemble_of_coherent (coherent_sharing hcoherent _))

/-- **A snapshot is the state at its block, whole and in order.** If the parts of a state agree and
its words fit, there is a snapshot that holds them, and it is what every build makes: for every
size of a page, every limit on the reads in flight and every order in which they complete. -/
theorem build_is_faithful (slot : UInt64) (st : ChainState) (be : BeaconState)
    (hcoherent : Coherent st.nodes st.minipools) (hfits : st.Fits) :
    ∃ s : Snapshot, s.parts = wholeState st be slot ∧
      ∀ (plan : Plan) (chain : List (Exchange World) → (c : Chain.Call) → Chain.Reply c)
        (beacon : List (Exchange World) → (c : Beacon.Call) → Beacon.Reply c),
        st.ServedBy be.block.executionBlock chain → be.ServedBy slot beacon →
        ((Snapshot.build plan slot).runIn (.recording (answers chain beacon)) []).1 = .ok s := by
  refine ⟨.ofCoherent (wholeState st be slot) (coherent_sharing hcoherent _), rfl, ?_⟩
  intro plan chain beacon hst hbe
  exact build_of_served hcoherent hfits hst hbe plan

theorem build_of_two_nodes :
    ∃ s : Snapshot,
      s.parts = wholeState (.ofContracts twoNodes) (.ofConsensus oneValidator ⟨100, 5000⟩) 100 ∧
      (∀ pageSize, ((Snapshot.build (.inOrder 4 pageSize) 100).runIn (.recording (answers
        (fun _ call => twoNodes.answer call) fun _ call => oneValidator.answer call)) []).1 =
          .ok s) ∧
      s.parts.minipools.map (fun m => (m.nodeShareOfBalance, m.userShareOfBalance)) =
        [(0, 0), (etherToWei 8, etherToWei 24), (0, 0)] := by
  obtain ⟨s, hs, hbuild⟩ := build_is_faithful 100 (.ofContracts twoNodes)
    (.ofConsensus oneValidator ⟨100, 5000⟩) coherent_twoNodes fits_twoNodes
  refine ⟨s, hs, fun pageSize => hbuild _ _ _ servedBy_twoNodes servedBy_oneValidator, ?_⟩
  rw [hs]
  decide +kernel

end PoolKeeper.Snapshot.Build
