/-
The payout of an interval for collateral, to the last wei.

Every node is paid the exact quotient of its stake, rounded down
(`paidTo_collateralRewards`). What rounding leaves of the pool is less than one
wei for each node with a stake, so the whole payout is known up to that
(`collateralRewards_exact`).
-/
import PoolKeeper.Proofs.Rewards.Payout
import PoolKeeper.Rewards.Collateral

namespace PoolKeeper

/-- What is due to node operators, computed without bound. -/
def NetworkDetails.exactPool (d : NetworkDetails) : Nat :=
  d.pendingRplRewards.toNat * d.nodeOperatorRewardsPercent.toNat / 10 ^ 18

namespace EffectiveStakes
variable (e : EffectiveStakes)

/-- The stake of a node, zero for one that is not listed. -/
def stakeOf (a : Address) : Nat := ((e.nodes.get? a).map fun c => c.effectiveStake.toNat).getD 0

/-- The stakes of all nodes. -/
def amounts : List Nat := e.nodes.entries.map fun n => n.2.effectiveStake.toNat

/-- The sum of all stakes, as a number without bound. -/
def sum : Nat := e.amounts.sum

/-- The number of nodes whose stake is not zero. -/
def staked : Nat := e.amounts.countP (· ≠ 0)

theorem exactSum_weights : exactSum (e.weights.entries.map (·.2)) = e.sum := by
  rw [exactSum, sum, amounts, weights, KeyMap.mapValues, List.map_map, List.map_map]
  rfl

/-- Where no node has a stake, no node's stake is other than zero. -/
theorem stakeOf_eq_zero (h : e.staked = 0) (a : Address) : e.stakeOf a = 0 := by
  rw [stakeOf]
  cases hc : e.nodes.get? a with
  | none => rfl
  | some c =>
    have hmem : c.effectiveStake.toNat ∈ e.amounts :=
      List.mem_map_of_mem (KeyMap.get?_eq_some_iff.1 hc)
    simpa using List.countP_eq_zero.1 h _ hmem

end EffectiveStakes

/-- What a file pays a node for collateral. -/
def RewardsFile.paidTo (f : RewardsFile) (a : Address) : Nat :=
  ((f.nodes.get? a).map fun r => r.collateralRpl.toNat).getD 0

namespace Snapshot

theorem toNat_operatorPool {d : NetworkDetails}
    (h : d.pendingRplRewards.toNat * d.nodeOperatorRewardsPercent.toNat < 2 ^ 256) :
    d.operatorPool.toNat = d.exactPool := by
  rw [NetworkDetails.operatorPool, toNat_saturatingMul_div _ h]
  rfl

section
variable (s : Snapshot) (e : EffectiveStakes) (header : IntervalHeader)

/-- What a node is owed: its share, and nothing else. -/
def collateralEntry (c : NodeCollateral) : NodeRewards :=
  ⟨0, share s.parts.network.operatorPool e.weights c.effectiveStake, 0, 0, []⟩

/-- What the nodes are owed. -/
def collateralPayouts : Payouts := e.nodes.mapValues fun _ c => s.collateralEntry e c

theorem collateralRewards_eq :
    s.collateralRewards e header = (s.collateralPayouts e).toFile header := by
  have hshares : apportion s.parts.network.operatorPool e.weights = e.nodes.mapValues
      fun _ c => share s.parts.network.operatorPool e.weights c.effectiveStake := by
    refine KeyMap.ext fun a => ?_
    rw [apportion_eq, EffectiveStakes.weights, KeyMap.get?_mapValues, KeyMap.get?_mapValues,
      KeyMap.get?_mapValues, Option.map_map]
    rfl
  have hpayouts : Payouts.addAll .empty
      ((apportion s.parts.network.operatorPool e.weights).entries.map fun x => ⟨x.1, x.2, 0, 0⟩) =
        s.collateralPayouts e := by
    refine KeyMap.ext fun a => ?_
    rw [Payouts.get?_addAll_entries _ (fun a x => ⟨a, x, 0, 0⟩) (fun _ _ => rfl), hshares,
      collateralPayouts, KeyMap.get?_mapValues, KeyMap.get?_mapValues, Option.map_map]
    refine congrArg (Option.map · _) (funext fun c => ?_)
    simp [NodeRewards.credited, NodeRewards.none, collateralEntry]
  rw [collateralRewards, RewardsFile.ofCredits, hpayouts]

/-- A node has an entry when its share is not zero: the share alone, and its proof. -/
theorem get?_collateralRewards {a : Address} {r : NodeRewards} :
    (s.collateralRewards e header).nodes.get? a = some r ↔
      ∃ c, e.nodes.get? a = some c ∧
        share s.parts.network.operatorPool e.weights c.effectiveStake ≠ 0 ∧
        r = { s.collateralEntry e c with
          merkleProof := ((s.collateralPayouts e).tree.proof?
            ((s.collateralEntry e c).leaf a)).getD [] } := by
  rw [collateralRewards_eq, Payouts.get?_toFile, collateralPayouts, KeyMap.get?_mapValues]
  constructor
  · rintro ⟨o, ho, hempty, rfl⟩
    obtain ⟨c, hc, rfl⟩ := Option.map_eq_some_iff.1 ho
    exact ⟨c, hc, by simpa [NodeRewards.isEmpty, collateralEntry] using hempty, rfl⟩
  · rintro ⟨c, hc, hne, rfl⟩
    exact ⟨s.collateralEntry e c, by rw [hc]; rfl,
      by simpa [NodeRewards.isEmpty, collateralEntry] using hne, rfl⟩

/-- A node is paid its share. -/
theorem paidTo_eq_share (a : Address) :
    (s.collateralRewards e header).paidTo a = ((e.nodes.get? a).map fun c =>
      (share s.parts.network.operatorPool e.weights c.effectiveStake).toNat).getD 0 := by
  rw [RewardsFile.paidTo]
  cases hr : (s.collateralRewards e header).nodes.get? a with
  | some r =>
    obtain ⟨c, hc, -, rfl⟩ := (s.get?_collateralRewards e header).1 hr
    rw [hc]
    rfl
  | none =>
    cases hc : e.nodes.get? a with
    | none => rfl
    | some c =>
      -- a share that is not zero would have its entry
      by_cases hzero : share s.parts.network.operatorPool e.weights c.effectiveStake = 0
      · simp [hzero]
      · rw [(s.get?_collateralRewards e header).2 ⟨c, hc, hzero, rfl⟩] at hr
        cases hr

variable {s e}
variable (hpending : s.parts.network.pendingRplRewards.toNat *
    s.parts.network.nodeOperatorRewardsPercent.toNat < 2 ^ 256)
variable (hsum : e.sum < 2 ^ 256)
variable (hproduct : ∀ n ∈ e.nodes.entries,
    s.parts.network.exactPool * n.2.effectiveStake.toNat < 2 ^ 256)
include hpending hsum hproduct

theorem toNat_share_of_get? {a : Address} {c : NodeCollateral} (h : e.nodes.get? a = some c) :
    (share s.parts.network.operatorPool e.weights c.effectiveStake).toNat =
      s.parts.network.exactPool * c.effectiveStake.toNat / e.sum := by
  have hfits := hproduct (a, c) (KeyMap.get?_eq_some_iff.1 h)
  rw [← toNat_operatorPool hpending] at hfits
  rw [toNat_share (by rwa [e.exactSum_weights]) hfits, e.exactSum_weights,
    toNat_operatorPool hpending]

/-- **A node is paid the exact quotient, rounded down.** -/
theorem paidTo_collateralRewards (a : Address) :
    (s.collateralRewards e header).paidTo a =
      s.parts.network.exactPool * e.stakeOf a / e.sum := by
  rw [paidTo_eq_share, EffectiveStakes.stakeOf]
  cases hc : e.nodes.get? a with
  | none => simp
  | some c => exact toNat_share_of_get? hpending hsum hproduct hc

/-- A node has an entry exactly when it is paid anything. -/
theorem exists_entry_iff (a : Address) :
    (∃ r, (s.collateralRewards e header).nodes.get? a = some r) ↔
      0 < s.parts.network.exactPool * e.stakeOf a / e.sum := by
  rw [← paidTo_collateralRewards header hpending hsum hproduct, paidTo_eq_share]
  constructor
  · rintro ⟨r, hr⟩
    obtain ⟨c, hc, hne, -⟩ := (s.get?_collateralRewards e header).1 hr
    rw [hc]
    exact Nat.pos_of_ne_zero fun hzero => hne (BitVec.eq_of_toNat_eq hzero)
  · intro hpos
    cases hc : e.nodes.get? a with
    | none => simp [hc] at hpos
    | some c =>
      refine ⟨_, (s.get?_collateralRewards e header).2 ⟨c, hc, fun hzero => ?_, rfl⟩⟩
      simp [hc, hzero] at hpos

/-- The entries together are the quotients together. -/
theorem exactSum_collateralRewards :
    exactSum ((s.collateralRewards e header).nodes.entries.map (·.2.collateralRpl)) =
      (e.amounts.map fun w => s.parts.network.exactPool * w / e.amounts.sum).sum := by
  rw [collateralRewards_eq, Payouts.exactSum_collateralRpl_toFile, exactSum, collateralPayouts,
    KeyMap.mapValues, EffectiveStakes.amounts, List.map_map, List.map_map, List.map_map]
  refine congrArg List.sum (List.map_congr_left fun n hn => ?_)
  exact toNat_share_of_get? hpending hsum hproduct (KeyMap.get?_eq_some_iff.2 hn)

end

/-- **The payout of an interval is exact.** -/
theorem collateralRewards_exact (s : Snapshot) (e : EffectiveStakes) (header : IntervalHeader)
    (hpending : s.parts.network.pendingRplRewards.toNat *
      s.parts.network.nodeOperatorRewardsPercent.toNat < 2 ^ 256)
    (hsum : e.sum < 2 ^ 256)
    (hproduct : ∀ n ∈ e.nodes.entries,
      s.parts.network.exactPool * n.2.effectiveStake.toNat < 2 ^ 256) :
    let pool := s.parts.network.exactPool
    let file := s.collateralRewards e header
    (∀ a, file.paidTo a = pool * e.stakeOf a / e.sum) ∧
    (∀ a, (∃ r, file.nodes.get? a = some r) ↔ 0 < pool * e.stakeOf a / e.sum) ∧
    (∀ a r, file.nodes.get? a = some r →
      r.rewardNetwork = 0 ∧ r.oracleRpl = 0 ∧ r.smoothingPoolEth = 0) ∧
    file.totals.collateralRpl.toNat = exactSum (file.nodes.entries.map (·.2.collateralRpl)) ∧
    file.totals.collateralRpl.toNat ≤ pool ∧
    (0 < e.staked → pool < file.totals.collateralRpl.toNat + e.staked) ∧
    (e.staked = 0 →
      file.nodes.entries = [] ∧ file.totals = ⟨0, 0, 0⟩ ∧ file.merkleRoot = .zero) ∧
    (∀ a b, e.stakeOf a ≤ e.stakeOf b → file.paidTo a ≤ file.paidTo b) ∧
    file.header = header ∧ file.trust file.merkleRoot = .ok () ∧
    ∀ a r, file.nodes.get? a = some r → file.verifyNode a = .ok true := by
  intro pool file
  have hfile : file = (s.collateralPayouts e).toFile header := s.collateralRewards_eq e header
  have hpaid := paidTo_collateralRewards header hpending hsum hproduct
  have hentry := exists_entry_iff header hpending hsum hproduct
  have hentries := exactSum_collateralRewards header hpending hsum hproduct
  have hle := sum_shares_le pool e.amounts
  have htotals := (s.collateralPayouts e).totals_toFile header
  rw [← hfile] at htotals
  -- the entries add up to no more than the pool, so their sum does not wrap
  have htotal : file.totals.collateralRpl.toNat =
      exactSum (file.nodes.entries.map (·.2.collateralRpl)) := by
    have hpool : pool < 2 ^ 256 := Nat.lt_of_le_of_lt (Nat.div_le_self _ _) hpending
    rw [htotals]
    exact toNat_sumWords_of_lt (hentries.trans_lt (Nat.lt_of_le_of_lt hle hpool))
  refine ⟨hpaid, hentry, ?_, htotal, ?_, ?_, ?_, ?_, ?_, ?_, ?_⟩
  · intro a r hr
    obtain ⟨c, -, -, rfl⟩ := (s.get?_collateralRewards e header).1 hr
    exact ⟨rfl, rfl, rfl⟩
  · rw [htotal, hentries]
    exact hle
  · intro hstaked
    rw [htotal, hentries]
    exact lt_sum_shares_add hstaked pool
  · intro hstaked
    have hnil : file.nodes.entries = [] := by
      refine List.eq_nil_iff_forall_not_mem.2 fun n hn => ?_
      have hpos := (hentry n.1).1 ⟨n.2, KeyMap.get?_eq_some_iff.2 hn⟩
      simp [e.stakeOf_eq_zero hstaked] at hpos
    refine ⟨hnil, ?_, ?_⟩
    · rw [htotals, hnil]
      rfl
    · rw [← RewardsFile.treeRoot_of_nil hnil, hfile, Payouts.treeRoot_toFile]
  · intro a b hab
    rw [hpaid, hpaid]
    exact Nat.div_le_div_right (Nat.mul_le_mul_left _ hab)
  · rw [hfile]
    rfl
  · rw [hfile]
    exact (s.collateralPayouts e).trust_toFile header
  · intro a r hr
    rw [hfile] at hr ⊢
    exact (s.collateralPayouts e).verifyNode_toFile header hr

namespace ThreeShares

/-- A tenth of a thousand is due to node operators. -/
def snapshot : Snapshot where
  parts :=
    { elBlock := 77
      slot := 3200
      beaconConfig := ⟨0, 12, 32⟩
      isAtlasDeployed := true
      network := { pendingRplRewards := 1000, nodeOperatorRewardsPercent := 100000000000000000 }
      nodes := []
      minipools := []
      validators := .empty }
  index := .empty
  indexed := rfl

def collateral (stake : Word) : NodeCollateral := ⟨0, 0, 0, 0, stake, stake⟩

/-- Three nodes with equal stakes, and one without. -/
def stakes : EffectiveStakes :=
  ⟨⟨[(.ofNat 1, collateral 5), (.ofNat 2, collateral 5), (.ofNat 3, collateral 0),
    (.ofNat 4, collateral 5)], by decide⟩, 15⟩

end ThreeShares

open ThreeShares in
/-- A hundred cannot be split in three without a remainder. -/
theorem payout_of_three_shares :
    snapshot.parts.network.pendingRplRewards.toNat *
        snapshot.parts.network.nodeOperatorRewardsPercent.toNat < 2 ^ 256 ∧
      stakes.sum < 2 ^ 256 ∧
      (∀ n ∈ stakes.nodes.entries,
        snapshot.parts.network.exactPool * n.2.effectiveStake.toNat < 2 ^ 256) ∧
      ∀ header, (snapshot.collateralRewards stakes header).paidTo (.ofNat 1) = 33 ∧
        (¬∃ r, (snapshot.collateralRewards stakes header).nodes.get? (.ofNat 3) = some r) ∧
        (snapshot.collateralRewards stakes header).totals.collateralRpl.toNat ≤ 100 ∧
        100 < (snapshot.collateralRewards stakes header).totals.collateralRpl.toNat + 3 := by
  have hpending : snapshot.parts.network.pendingRplRewards.toNat *
      snapshot.parts.network.nodeOperatorRewardsPercent.toNat < 2 ^ 256 := by decide
  have hsum : stakes.sum < 2 ^ 256 := by decide
  have hproduct : ∀ n ∈ stakes.nodes.entries,
      snapshot.parts.network.exactPool * n.2.effectiveStake.toNat < 2 ^ 256 := by decide
  refine ⟨hpending, hsum, hproduct, fun header => ?_⟩
  obtain ⟨hpaid, hentry, -, -, hle, hlt, -⟩ :=
    collateralRewards_exact snapshot stakes header hpending hsum hproduct
  refine ⟨?_, ?_, hle, hlt (by decide)⟩
  · rw [hpaid]
    decide
  · rw [hentry]
    decide

end Snapshot
end PoolKeeper
