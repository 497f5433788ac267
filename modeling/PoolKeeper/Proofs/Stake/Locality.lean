/-
A node's collateral is made of the node's own data.

Snapshots agree on a node (`AgreeOn`) when they have the network, the time, the
node's record, its minipools and what is known of their validators in common.
What counts for the node is then the same in both (`AgreeOn.countedOf_perm`),
and nothing else is in its collateral. Snapshots that list the same nodes and
minipools in another order agree on every node, and a sum does not depend on
the order either, so all of their stakes are the same (`effectiveStakes_local`).
-/
import PoolKeeper.Proofs.Stake.Participation

namespace PoolKeeper

/-- Parts that agree with each other do so in any order. -/
theorem SnapshotParts.Coherent.perm {nodes nodes' : List NodeDetails}
    {ms ms' : List MinipoolDetails} (h : Coherent nodes ms) (hnodes : nodes'.Perm nodes)
    (hms : ms'.Perm ms) : Coherent nodes' ms' where
  nodes_nodup := (hnodes.map _).nodup_iff.2 h.nodes_nodup
  minipools_nodup := (hms.map _).nodup_iff.2 h.minipools_nodup
  node_listed m hm := (hnodes.map _).mem_iff.2 (h.node_listed m (hms.mem_iff.1 hm))
  keys_nodup := ((hms.filter _).map _).nodup_iff.2 h.keys_nodup

namespace Snapshot

theorem effectiveStakes_eq (s : Snapshot) (scale : Bool) :
    s.effectiveStakes scale =
      if s.parts.network.rplPrice = 0 then .error (.zeroRplPrice s.parts.elBlock)
      else if scale = true ∧ s.parts.network.intervalDuration = 0 then
        .error (.zeroIntervalDuration s.parts.elBlock)
      else .ok ⟨.ofList (s.collaterals scale),
        sumWords ((s.collaterals scale).map (·.2.effectiveStake))⟩ :=
  rfl

/-- Stakes are computed unless something would have to be divided by zero. -/
theorem effectiveStakes_eq_ok_iff {s : Snapshot} {scale : Bool} {e : EffectiveStakes} :
    s.effectiveStakes scale = .ok e ↔
      s.parts.network.rplPrice ≠ 0 ∧
      ¬(scale = true ∧ s.parts.network.intervalDuration = 0) ∧
      e = ⟨.ofList (s.collaterals scale),
        sumWords ((s.collaterals scale).map (·.2.effectiveStake))⟩ := by
  rw [effectiveStakes_eq]
  split
  · rename_i hprice
    exact iff_of_false nofun fun h => h.1 hprice
  · rename_i hprice
    split
    · rename_i hduration
      exact iff_of_false nofun fun h => h.2.1 hduration
    · rename_i hduration
      exact ⟨fun h => ⟨hprice, hduration, (Except.ok.inj h).symm⟩,
        fun h => congrArg Except.ok h.2.2.symm⟩

/-! ## Snapshots that have a node in common -/

/-- Snapshots of one network and time, with one record of a node, the same minipools of that node
in any order, and the same records of the validators of these. -/
structure AgreeOn (s t : Snapshot) (n : NodeDetails) : Prop where
  network : t.parts.network = s.parts.network
  slot : t.parts.slot = s.parts.slot
  beaconConfig : t.parts.beaconConfig = s.parts.beaconConfig
  mem_left : n ∈ s.parts.nodes
  mem_right : n ∈ t.parts.nodes
  minipools : (t.parts.minipools.filter (·.nodeAddress = n.address)).Perm
    (s.parts.minipools.filter (·.nodeAddress = n.address))
  validators : ∀ m ∈ s.parts.minipools, m.nodeAddress = n.address →
    t.parts.validators.get? m.pubkey = s.parts.validators.get? m.pubkey

theorem countedOf_eq_filter (s : Snapshot) (a : Address) :
    s.countedOf a = (s.parts.minipools.filter (·.nodeAddress = a)).filter s.Counts := by
  rw [countedOf, List.filter_filter]
  refine List.filter_congr fun m _ => ?_
  rw [← Bool.decide_and, decide_eq_decide]
  exact and_comm

namespace AgreeOn
variable {s t : Snapshot} {n : NodeDetails} (h : AgreeOn s t n)
include h

theorem counts_iff {m : MinipoolDetails} (hm : m ∈ s.parts.minipools)
    (hnode : m.nodeAddress = n.address) : t.Counts m ↔ s.Counts m := by
  simp only [Counts, validator?, epoch, h.validators m hm hnode, h.slot, h.beaconConfig]

/-- **What counts for the node is the same in both.** -/
theorem countedOf_perm : (t.countedOf n.address).Perm (s.countedOf n.address) := by
  have hsame : (s.parts.minipools.filter (·.nodeAddress = n.address)).filter t.Counts =
      (s.parts.minipools.filter (·.nodeAddress = n.address)).filter s.Counts := by
    refine List.filter_congr fun m hm => ?_
    obtain ⟨hm, hnode⟩ := List.mem_filter.1 hm
    rw [decide_eq_decide]
    exact h.counts_iff hm (of_decide_eq_true hnode)
  rw [countedOf_eq_filter, countedOf_eq_filter, ← hsame]
  exact h.minipools.filter _

theorem collateralOf_eq (scale : Bool) : t.collateralOf scale n = s.collateralOf scale n :=
  collateralOf_congr scale h.network (by simp only [slotTime, h.slot, h.beaconConfig])
    h.countedOf_perm

end AgreeOn

/-! ## Snapshots in another order -/

/-- Snapshots that list the same in another order agree on every node. -/
theorem agreeOn_of_perm {s t : Snapshot} {ns : List NodeDetails} {ms : List MinipoolDetails}
    (hparts : t.parts = { s.parts with nodes := ns, minipools := ms })
    (hns : ns.Perm s.parts.nodes) (hms : ms.Perm s.parts.minipools) {n : NodeDetails}
    (hn : n ∈ s.parts.nodes) : AgreeOn s t n where
  network := by rw [hparts]
  slot := by rw [hparts]
  beaconConfig := by rw [hparts]
  mem_left := hn
  mem_right := by
    rw [hparts]
    exact hns.mem_iff.2 hn
  minipools := by
    rw [hparts]
    exact hms.filter _
  validators _ _ _ := by rw [hparts]

/-- They have the same nodes with the same collateral. -/
theorem collaterals_perm {s t : Snapshot} {ns : List NodeDetails} {ms : List MinipoolDetails}
    (hparts : t.parts = { s.parts with nodes := ns, minipools := ms })
    (hns : ns.Perm s.parts.nodes) (hms : ms.Perm s.parts.minipools) (scale : Bool) :
    (t.collaterals scale).Perm (s.collaterals scale) := by
  have hnodes : t.parts.nodes.Perm s.parts.nodes := by rwa [hparts]
  have hsame : s.collaterals scale =
      s.parts.nodes.map fun n => (n.address, t.collateralOf scale n) := by
    refine List.map_congr_left fun n hn => ?_
    rw [(agreeOn_of_perm hparts hns hms hn).collateralOf_eq scale]
  rw [hsame]
  exact hnodes.map _

/-- The order of the nodes shows neither in the table of their stakes nor in the total. -/
theorem effectiveStakes_perm {s t : Snapshot} {ns : List NodeDetails} {ms : List MinipoolDetails}
    (hparts : t.parts = { s.parts with nodes := ns, minipools := ms })
    (hns : ns.Perm s.parts.nodes) (hms : ms.Perm s.parts.minipools) (scale : Bool) :
    t.effectiveStakes scale = s.effectiveStakes scale := by
  have hperm := collaterals_perm hparts hns hms scale
  have htable := KeyMap.ofList_perm (t.nodup_keys_collaterals scale) hperm
  have htotal := sumWords_perm (hperm.map (·.2.effectiveStake))
  have hnetwork : t.parts.network = s.parts.network := by rw [hparts]
  have hblock : t.parts.elBlock = s.parts.elBlock := by rw [hparts]
  rw [effectiveStakes_eq, effectiveStakes_eq, hnetwork, hblock, htable, htotal]

/-- **A node's collateral depends on its own data only**: snapshots that agree on a node either both
have no stakes or give the node the same collateral, scaled or not, whatever else they list. And
the nodes and minipools of a snapshot make a snapshot in any order, with the same table of
collaterals and the same total. -/
theorem effectiveStakes_local :
    (∀ (s t : Snapshot) (n : NodeDetails), AgreeOn s t n → ∀ scale,
      ((∃ e, s.effectiveStakes scale = .ok e) ↔ ∃ e, t.effectiveStakes scale = .ok e) ∧
      ∀ e e', s.effectiveStakes scale = .ok e → t.effectiveStakes scale = .ok e' →
        ∃ c, e.nodes.get? n.address = some c ∧ e'.nodes.get? n.address = some c) ∧
    ∀ (s : Snapshot) (ns : List NodeDetails) (ms : List MinipoolDetails),
      ns.Perm s.parts.nodes → ms.Perm s.parts.minipools →
      ∃ t, ofParts { s.parts with nodes := ns, minipools := ms } = .ok t ∧
        ∀ scale, t.effectiveStakes scale = s.effectiveStakes scale := by
  constructor
  · intro s t n h scale
    simp only [effectiveStakes_eq_ok_iff, h.network]
    refine ⟨by simp, ?_⟩
    rintro e e' ⟨-, -, rfl⟩ ⟨-, -, rfl⟩
    refine ⟨_, get?_collaterals h.mem_left, ?_⟩
    rw [← h.collateralOf_eq scale]
    exact get?_collaterals h.mem_right
  · intro s ns ms hns hms
    exact ⟨_, ofParts_of_coherent (s.coherent.perm hns hms), effectiveStakes_perm rfl hns hms⟩

namespace Crowd
open Newcomer TwoStakers

/-- The newcomer with its minipools the other way around, behind a node that has five times its
stake and ether that counts. The node that was listed with it is not there. -/
def parts : SnapshotParts :=
  { Newcomer.parts 28400 400 with
    elBlock := 99
    nodes := [⟨.ofNat 9, true, 0, etherToWei 2000, true, 1⟩, node 28400 400]
    minipools := [minipool 5 1 .staking, minipool 8 9 .staking, minipool 3 1 .staking]
    validators := .ofList [validator 8 0 farFutureEpoch, validator 3 100 101, validator 5 0 100] }

def snapshot : Snapshot := .ofCoherent parts (by decide +kernel)

end Crowd

/-- The newcomer has the same collateral, of which 100 RPL count, among others. Nor does it matter
in which order those are listed. -/
theorem same_collateral_in_crowd :
    AgreeOn Newcomer.late Crowd.snapshot (Newcomer.node 28400 400) ∧
      (∃ e e' c, Newcomer.late.effectiveStakes true = .ok e ∧
        Crowd.snapshot.effectiveStakes true = .ok e' ∧ e.nodes.get? (.ofNat 1) = some c ∧
        e'.nodes.get? (.ofNat 1) = some c ∧ c.effectiveStake = etherToWei 100) ∧
      ∃ t, ofParts { Crowd.parts with
          nodes := Crowd.parts.nodes.reverse, minipools := Crowd.parts.minipools.reverse } = .ok t ∧
        t.effectiveStakes true = Crowd.snapshot.effectiveStakes true := by
  have hagree : AgreeOn Newcomer.late Crowd.snapshot (Newcomer.node 28400 400) :=
    ⟨rfl, rfl, rfl, by decide, by decide, by decide +kernel, by decide +kernel⟩
  obtain ⟨hlocal, horder⟩ := effectiveStakes_local
  refine ⟨hagree, ?_, ?_⟩
  · obtain ⟨hboth, hsame⟩ := hlocal _ _ _ hagree true
    have he := @effectiveStakes_eq_ok Newcomer.late true (by decide) (fun _ => by decide)
    obtain ⟨e', he'⟩ := hboth.1 ⟨_, he⟩
    obtain ⟨c, hc, hc'⟩ := hsame _ e' he he'
    have hstake : (KeyMap.get? (KeyMap.ofList (Newcomer.late.collaterals true)) (.ofNat 1)).map
        NodeCollateral.effectiveStake = some (etherToWei 100) := by
      decide +kernel
    exact ⟨_, e', c, he, he', hc, hc', by simpa using (congrArg _ hc).symm.trans hstake⟩
  · obtain ⟨t, ht, hstakes⟩ := horder Crowd.snapshot Crowd.parts.nodes.reverse
      Crowd.parts.minipools.reverse
      (List.reverse_perm _) (List.reverse_perm _)
    exact ⟨t, ht, hstakes true⟩

end Snapshot
end PoolKeeper
