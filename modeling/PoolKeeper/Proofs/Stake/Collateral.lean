/-
What effective stakes are made of, when they are not scaled.

A minipool's ether counts or it does not (`Counts`), and each that counts does
so for one node (`flatMap_countedOf_perm`). So the ether that nodes are
credited with is the ether of the minipools that count, node by node and over
all nodes (`effectiveStakes_exact`).

A stake is cut off at the largest collateral and void below the least. It lies
between the two when it is not zero, except where the least lies above the
largest: `effectiveStake_below_minimum` is a node with little ether of its own
and much that it borrowed, whose stake counts although it is below the least.
-/
import PoolKeeper.Proofs.Amounts
import PoolKeeper.Proofs.KeyMap
import PoolKeeper.Proofs.State.Coherence
import PoolKeeper.Units

namespace PoolKeeper.Snapshot

variable (s : Snapshot)

/-! ## The ether that counts -/

/-- A minipool's ether counts: the minipool exists and is staking, and the consensus layer has a
record of its validator, activated by the snapshot's epoch and with its exit still to come. -/
def Counts (m : MinipoolDetails) : Prop :=
  m.doesExist = true ∧ m.status = .staking ∧
    ∃ v ∈ s.validator? m.pubkey, v.activationEpoch ≤ s.epoch ∧ s.epoch < v.exitEpoch

theorem isEligible_iff {m : MinipoolDetails} : s.isEligible m = true ↔ s.Counts m := by
  rw [isEligible, Counts, Bool.and_eq_true, Bool.and_eq_true, beq_iff_eq, and_assoc,
    Option.any_eq_true]
  simp only [ValidatorStatus.isActiveAt, Bool.and_eq_true, decide_eq_true_eq, Option.mem_def]

instance (m : MinipoolDetails) : Decidable (s.Counts m) := decidable_of_iff _ s.isEligible_iff

/-- The minipools that count. -/
def counted : List MinipoolDetails := s.parts.minipools.filter s.Counts

/-- The minipools that name a node and count. -/
def countedOf (a : Address) : List MinipoolDetails :=
  s.parts.minipools.filter fun m => m.nodeAddress = a ∧ s.Counts m

theorem eligibleMinipools_eq (a : Address) : s.eligibleMinipools a = s.countedOf a := by
  rw [eligibleMinipools, minipoolsOf_eq, countedOf, List.filter_filter]
  refine List.filter_congr fun m _ => ?_
  rw [Bool.eq_iff_iff, Bool.and_eq_true, s.isEligible_iff, decide_eq_true_iff, decide_eq_true_iff,
    and_comm]

/-- **Every minipool that counts, counts for one node.** -/
theorem flatMap_countedOf_perm :
    (s.parts.nodes.flatMap fun n => s.countedOf n.address).Perm s.counted := by
  have hperm := s.flatMap_minipoolsOf_perm.filter s.isEligible
  have hcounted : s.parts.minipools.filter s.isEligible = s.counted :=
    List.filter_congr fun m _ => by rw [Bool.eq_iff_iff, s.isEligible_iff, decide_eq_true_iff]
  rw [List.filter_flatMap, hcounted] at hperm
  have hof : ∀ n ∈ s.parts.nodes, (s.minipoolsOf n.address).filter s.isEligible =
      s.countedOf n.address := fun n _ => s.eligibleMinipools_eq n.address
  rwa [List.flatMap_congr hof] at hperm

/-- Node by node an amount of the minipools that count adds up to its sum over all of them. -/
theorem sum_countedOf (amount : MinipoolDetails → Word) :
    (s.parts.nodes.map fun n => exactSum ((s.countedOf n.address).map amount)).sum =
      exactSum (s.counted.map amount) := by
  rw [← exactSum_perm (s.flatMap_countedOf_perm.map amount), List.map_flatMap]
  induction s.parts.nodes with
  | nil => rfl
  | cons n ns ih => rw [List.map_cons, List.sum_cons, List.flatMap_cons, exactSum_append, ih]

/-- The exact sum of what the minipools of a node that count have borrowed. -/
def borrowedBy (a : Address) : Nat :=
  exactSum ((s.countedOf a).map MinipoolDetails.userDepositBalance)

/-- The exact sum of the bonds of the minipools of a node that count. -/
def bondedBy (a : Address) : Nat :=
  exactSum ((s.countedOf a).map MinipoolDetails.nodeDepositBalance)

/-! ## A node's collateral -/

variable (n : NodeDetails)

@[simp] theorem collateralOf_false : s.collateralOf false n = s.collateral n := rfl

theorem toNat_eligibleBorrowedEth :
    (s.collateral n).eligibleBorrowedEth.toNat = s.borrowedBy n.address % 2 ^ 256 := by
  rw [borrowedBy, ← eligibleMinipools_eq, ← toNat_sumWords]
  rfl

theorem toNat_eligibleBondedEth :
    (s.collateral n).eligibleBondedEth.toNat = s.bondedBy n.address % 2 ^ 256 := by
  rw [bondedBy, ← eligibleMinipools_eq, ← toNat_sumWords]
  rfl

theorem toNat_minCollateral
    (h : (s.collateral n).eligibleBorrowedEth.toNat *
      s.parts.network.minCollateralFraction.toNat < 2 ^ 256) :
    (s.collateral n).minCollateral.toNat = (s.collateral n).eligibleBorrowedEth.toNat *
      s.parts.network.minCollateralFraction.toNat / s.parts.network.rplPrice.toNat :=
  toNat_saturatingMul_div _ h

theorem toNat_maxCollateral
    (h : (s.collateral n).eligibleBondedEth.toNat *
      s.parts.network.maxCollateralFraction.toNat < 2 ^ 256) :
    (s.collateral n).maxCollateral.toNat = (s.collateral n).eligibleBondedEth.toNat *
      s.parts.network.maxCollateralFraction.toNat / s.parts.network.rplPrice.toNat :=
  toNat_saturatingMul_div _ h

/-- Below the least collateral a stake is void, and above the largest it is cut off. -/
theorem toNat_effectiveStake :
    (s.collateral n).effectiveStake.toNat =
      if n.rplStake.toNat < (s.collateral n).minCollateral.toNat then 0
      else min n.rplStake.toNat (s.collateral n).maxCollateral.toNat := by
  simp only [collateral, BitVec.lt_def]
  split
  · rfl
  · split
    · rw [Nat.min_eq_left (by omega)]
    · rw [Nat.min_eq_right (by omega)]

/-! ## The stakes of all nodes -/

/-- The nodes with their collateral, in the order of the nodes. -/
def collaterals (scale : Bool) : List (Address × NodeCollateral) :=
  s.parts.nodes.map fun n => (n.address, s.collateralOf scale n)

theorem keys_collaterals (scale : Bool) :
    (s.collaterals scale).map (·.1) = s.parts.nodes.map NodeDetails.address := by
  rw [collaterals, List.map_map]
  rfl

theorem nodup_keys_collaterals (scale : Bool) : ((s.collaterals scale).map (·.1)).Nodup := by
  rw [keys_collaterals]
  exact s.coherent.nodes_nodup

variable {s}

theorem effectiveStakes_eq_ok {scale : Bool} (hprice : s.parts.network.rplPrice ≠ 0)
    (hduration : scale = true → s.parts.network.intervalDuration ≠ 0) :
    s.effectiveStakes scale = .ok ⟨.ofList (s.collaterals scale),
      sumWords ((s.collaterals scale).map (·.2.effectiveStake))⟩ := by
  rw [effectiveStakes, if_neg hprice, if_neg fun h => hduration h.1 h.2]
  rfl

/-- A node is found with its own collateral. -/
theorem get?_collaterals {scale : Bool} {n : NodeDetails} (h : n ∈ s.parts.nodes) :
    (KeyMap.ofList (s.collaterals scale)).get? n.address = some (s.collateralOf scale n) :=
  (KeyMap.get?_ofList_eq_some_iff (s.nodup_keys_collaterals scale)).2 (List.mem_map_of_mem h)

/-- Summed over the entries an amount is what it is summed over the nodes. -/
theorem exactSum_collaterals (scale : Bool) (amount : NodeCollateral → Word) :
    exactSum ((KeyMap.ofList (s.collaterals scale)).entries.map fun e => amount e.2) =
      (s.parts.nodes.map fun n => (amount (s.collateralOf scale n)).toNat).sum := by
  rw [exactSum_perm ((KeyMap.entries_ofList_perm (s.nodup_keys_collaterals scale)).map _),
    exactSum, collaterals, List.map_map, List.map_map]
  rfl

/-- **Nodes are credited with the ether that counts, and with no other.** -/
theorem effectiveStakes_exact (s : Snapshot) (hprice : s.parts.network.rplPrice ≠ 0)
    (hfits : ∀ n ∈ s.parts.nodes,
      s.borrowedBy n.address < 2 ^ 256 ∧ s.bondedBy n.address < 2 ^ 256) :
    ∃ e, s.effectiveStakes false = .ok e ∧
      e.nodes.keys.Perm (s.parts.nodes.map NodeDetails.address) ∧
      (∀ n ∈ s.parts.nodes, ∃ c, e.nodes.get? n.address = some c ∧
        c.eligibleBorrowedEth.toNat = s.borrowedBy n.address ∧
        c.eligibleBondedEth.toNat = s.bondedBy n.address ∧
        (s.borrowedBy n.address * s.parts.network.minCollateralFraction.toNat < 2 ^ 256 →
          c.minCollateral.toNat = s.borrowedBy n.address *
            s.parts.network.minCollateralFraction.toNat / s.parts.network.rplPrice.toNat) ∧
        (s.bondedBy n.address * s.parts.network.maxCollateralFraction.toNat < 2 ^ 256 →
          c.maxCollateral.toNat = s.bondedBy n.address *
            s.parts.network.maxCollateralFraction.toNat / s.parts.network.rplPrice.toNat) ∧
        c.rplStake = n.rplStake ∧
        c.effectiveStake.toNat = if n.rplStake.toNat < c.minCollateral.toNat then 0
          else min n.rplStake.toNat c.maxCollateral.toNat) ∧
      exactSum (e.nodes.entries.map (·.2.eligibleBorrowedEth)) =
        exactSum (s.counted.map MinipoolDetails.userDepositBalance) ∧
      exactSum (e.nodes.entries.map (·.2.eligibleBondedEth)) =
        exactSum (s.counted.map MinipoolDetails.nodeDepositBalance) ∧
      e.total.toNat = exactSum (e.nodes.entries.map (·.2.effectiveStake)) % 2 ^ 256 := by
  have hborrowed : ∀ n ∈ s.parts.nodes,
      (s.collateral n).eligibleBorrowedEth.toNat = s.borrowedBy n.address := fun n hn => by
    rw [toNat_eligibleBorrowedEth, Nat.mod_eq_of_lt (hfits n hn).1]
  have hbonded : ∀ n ∈ s.parts.nodes,
      (s.collateral n).eligibleBondedEth.toNat = s.bondedBy n.address := fun n hn => by
    rw [toNat_eligibleBondedEth, Nat.mod_eq_of_lt (hfits n hn).2]
  refine ⟨_, effectiveStakes_eq_ok hprice nofun, ?_, ?_, ?_, ?_, ?_⟩
  · rw [← s.keys_collaterals false]
    exact (KeyMap.entries_ofList_perm (s.nodup_keys_collaterals false)).map _
  · intro n hn
    refine ⟨s.collateral n, get?_collaterals hn, hborrowed n hn, hbonded n hn, ?_, ?_, rfl,
      s.toNat_effectiveStake n⟩
    · rw [← hborrowed n hn]
      exact s.toNat_minCollateral n
    · rw [← hbonded n hn]
      exact s.toNat_maxCollateral n
  · rw [exactSum_collaterals, ← s.sum_countedOf]
    exact congrArg List.sum (List.map_congr_left hborrowed)
  · rw [exactSum_collaterals, ← s.sum_countedOf]
    exact congrArg List.sum (List.map_congr_left hbonded)
  · rw [toNat_sumWords]
    exact congrArg (· % 2 ^ 256) (exactSum_perm
      ((KeyMap.entries_ofList_perm (s.nodup_keys_collaterals false)).map (·.2.effectiveStake)).symm)

/-! ## Two nodes -/

namespace TwoStakers

/-- A minipool that borrowed 24 ether and has a bond of 8. -/
def minipool (n owner : Nat) (status : MinipoolStatus) : MinipoolDetails :=
  ⟨.ofNat n, true, .ofNat owner, status, .ofNat n, etherToWei 8, etherToWei 24, 0, 0, 0, 0, 0, 0⟩

def validator (n : Nat) (activation exit : UInt64) : Pubkey × ValidatorStatus :=
  (.ofNat n, ⟨.ofNat n, 0, 32000000000, activation, exit, false, "active_ongoing"⟩)

/-- Epoch 100, and RPL at a hundredth of an ether. Of the first node's minipools one has just been
activated and one has just left; of the second's one never leaves, one has no validator yet and one
is still to be launched. -/
def parts : SnapshotParts where
  elBlock := 77
  slot := 3200
  beaconConfig := ⟨0, 12, 32⟩
  isAtlasDeployed := true
  network := {
    rplPrice := 10000000000000000
    minCollateralFraction := 100000000000000000
    maxCollateralFraction := 1500000000000000000 }
  nodes := [⟨.ofNat 1, true, 0, etherToWei 500, false, 2⟩,
    ⟨.ofNat 2, true, 0, etherToWei 100, false, 3⟩]
  minipools := [minipool 3 1 .staking, minipool 4 2 .staking, minipool 5 1 .staking,
    minipool 6 2 .staking, minipool 7 2 .prelaunch]
  validators := .ofList [validator 3 100 101, validator 4 0 farFutureEpoch, validator 5 0 100,
    validator 7 0 farFutureEpoch]

def snapshot : Snapshot := .ofCoherent parts (by decide +kernel)

end TwoStakers

open TwoStakers in
/-- One minipool counts for each node. The first node's stake counts in full, the second's not at
all. -/
theorem stakes_of_two_nodes :
    snapshot.parts.network.rplPrice ≠ 0 ∧
      (∀ n ∈ snapshot.parts.nodes,
        snapshot.borrowedBy n.address < 2 ^ 256 ∧ snapshot.bondedBy n.address < 2 ^ 256) ∧
      ∃ e first second, snapshot.effectiveStakes false = .ok e ∧
        e.nodes.get? (.ofNat 1) = some first ∧ e.nodes.get? (.ofNat 2) = some second ∧
        first.eligibleBorrowedEth.toNat = 24 * 10 ^ 18 ∧
        first.effectiveStake.toNat = 500 * 10 ^ 18 ∧ second.effectiveStake.toNat = 0 ∧
        exactSum (e.nodes.entries.map (·.2.eligibleBondedEth)) = 16 * 10 ^ 18 := by
  have hprice : snapshot.parts.network.rplPrice ≠ 0 := by decide
  have hfits : ∀ n ∈ snapshot.parts.nodes,
      snapshot.borrowedBy n.address < 2 ^ 256 ∧ snapshot.bondedBy n.address < 2 ^ 256 := by
    decide +kernel
  refine ⟨hprice, hfits, ?_⟩
  obtain ⟨e, he, -, hnodes, -, hbonded, -⟩ := effectiveStakes_exact snapshot hprice hfits
  obtain ⟨first, hfirst, hborrowed₁, hbonded₁, hmin₁, hmax₁, -, hstake₁⟩ :=
    hnodes _ (List.mem_cons_self)
  obtain ⟨second, hsecond, -, -, hmin₂, -, -, hstake₂⟩ :=
    hnodes _ (List.mem_cons_of_mem _ List.mem_cons_self)
  refine ⟨e, first, second, he, hfirst, hsecond, ?_, ?_, ?_, ?_⟩
  · rw [hborrowed₁]
    decide +kernel
  · rw [hstake₁, hmin₁ (by decide +kernel), hmax₁ (by decide +kernel)]
    decide +kernel
  · rw [hstake₂, hmin₂ (by decide +kernel)]
    exact if_pos (by decide +kernel)
  · rw [hbonded]
    decide +kernel

/-! ## Between the least and the largest collateral -/

/-- **A stake that counts is never above the largest collateral**, nor above what the node has
staked. It is zero or between the least collateral and the largest just when it was below the
least to begin with, or the least is not above the largest, or the largest is zero. -/
theorem effectiveStake_within_iff (s : Snapshot) (hprice : s.parts.network.rplPrice ≠ 0) :
    ∃ e, s.effectiveStakes false = .ok e ∧
      ∀ n ∈ s.parts.nodes, ∃ c, e.nodes.get? n.address = some c ∧
        c.effectiveStake ≤ c.maxCollateral ∧ c.effectiveStake ≤ n.rplStake ∧
        (c.effectiveStake = 0 ∨
            c.minCollateral ≤ c.effectiveStake ∧ c.effectiveStake ≤ c.maxCollateral ↔
          n.rplStake < c.minCollateral ∨ c.minCollateral ≤ c.maxCollateral ∨
            c.maxCollateral = 0) := by
  refine ⟨_, effectiveStakes_eq_ok hprice nofun, fun n hn => ⟨_, get?_collaterals hn, ?_⟩⟩
  have hstake := s.toNat_effectiveStake n
  simp only [collateralOf_false, BitVec.le_def, BitVec.lt_def, ← BitVec.toNat_inj,
    BitVec.ofNat_eq_ofNat, BitVec.toNat_ofNat]
  split at hstake <;> omega

open TwoStakers in
/-- The first of the two nodes has a stake between the bounds. -/
theorem effectiveStake_within_of_two_nodes :
    snapshot.parts.network.rplPrice ≠ 0 ∧
      ∃ e c, snapshot.effectiveStakes false = .ok e ∧ e.nodes.get? (.ofNat 1) = some c ∧
        c.effectiveStake ≤ c.maxCollateral := by
  have hprice : snapshot.parts.network.rplPrice ≠ 0 := by decide
  obtain ⟨e, he, hnodes⟩ := effectiveStake_within_iff snapshot hprice
  obtain ⟨c, hc, hle, -⟩ := hnodes _ (List.mem_cons_self)
  exact ⟨hprice, e, c, he, hc, hle⟩

/-- One node with a bond of one ether, which has borrowed 31. -/
def SmallBond.parts : SnapshotParts :=
  { TwoStakers.parts with
    nodes := [⟨.ofNat 1, true, 0, etherToWei 400, false, 1⟩]
    minipools := [{ TwoStakers.minipool 4 1 .staking with
      nodeDepositBalance := etherToWei 1, userDepositBalance := etherToWei 31 }] }

def SmallBond.snapshot : Snapshot := .ofCoherent SmallBond.parts (by decide +kernel)

/-- **A stake may count although it is below the least collateral.** The least is 310 RPL and the
largest 150, so of 400 RPL 150 count. -/
theorem effectiveStake_below_minimum :
    SmallBond.snapshot.parts.network.rplPrice ≠ 0 ∧
      ∃ e c, SmallBond.snapshot.effectiveStakes false = .ok e ∧
        e.nodes.get? (.ofNat 1) = some c ∧
        c.minCollateral = etherToWei 310 ∧ c.effectiveStake = etherToWei 150 ∧
        ¬(c.effectiveStake = 0 ∨
          c.minCollateral ≤ c.effectiveStake ∧ c.effectiveStake ≤ c.maxCollateral) := by
  have hprice : SmallBond.snapshot.parts.network.rplPrice ≠ 0 := by decide
  refine ⟨hprice, _, _, effectiveStakes_eq_ok hprice nofun,
    get?_collaterals (n := ⟨.ofNat 1, true, 0, etherToWei 400, false, 1⟩) List.mem_cons_self, ?_⟩
  decide +kernel

end PoolKeeper.Snapshot
