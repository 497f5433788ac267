/-
What a file made of credits pays, and that it can be trusted.

Credits add up node by node (`get?_addAll`). The file has an entry for each
node that is owed anything (`get?_toFile`), its totals are the sums over its
entries (`totals_toFile`), it commits to the root it names (`trust_toFile`) and
the proof in each of its entries leads to that root (`verifyNode_toFile`).
-/
import PoolKeeper.Proofs.Amounts
import PoolKeeper.Proofs.Rewards.File
import PoolKeeper.Rewards.Payout

namespace PoolKeeper

/-- An entry with a credit added to it. -/
def NodeRewards.credited (r : NodeRewards) (c : Credit) : NodeRewards :=
  { r with
    collateralRpl := r.collateralRpl + c.collateralRpl
    oracleRpl := r.oracleRpl + c.oracleRpl
    smoothingPoolEth := r.smoothingPoolEth + c.smoothingPoolEth }

namespace Payouts
variable (p : Payouts) (header : IntervalHeader)

/-! ## Adding up credits -/

theorem get?_add (c : Credit) (a : Address) :
    (p.add c).get? a =
      if c.node = a then some (((p.get? a).getD .none).credited c) else p.get? a := by
  by_cases h : c.node = a
  · subst h
    rw [if_pos rfl]
    exact KeyMap.get?_insert_self p c.node _
  · rw [if_neg h]
    exact KeyMap.get?_insert_other p (Ne.symm h) _

/-- **A node is owed what its own credits add up to.** -/
theorem get?_addAll (cs : List Credit) (a : Address) :
    (p.addAll cs).get? a = (cs.filter (·.node = a)).foldl
      (fun r c => some ((r.getD .none).credited c)) (p.get? a) := by
  induction cs generalizing p with
  | nil => rfl
  | cons c cs ih =>
    have hstep : p.addAll (c :: cs) = (p.add c).addAll cs := rfl
    rw [hstep, ih, get?_add]
    by_cases h : c.node = a
    · rw [if_pos h, List.filter_cons_of_pos (by simpa using h), List.foldl_cons]
    · rw [if_neg h, List.filter_cons_of_neg (by simpa using h)]

/-- One credit for each key of a map. -/
theorem get?_addAll_entries {α : Type} (m : KeyMap 20 α) (credit : Address → α → Credit)
    (hnode : ∀ a x, (credit a x).node = a) (a : Address) :
    (addAll .empty (m.entries.map fun e => credit e.1 e.2)).get? a =
      (m.get? a).map fun x => NodeRewards.none.credited (credit a x) := by
  have hown : (m.entries.map fun e => credit e.1 e.2).filter (·.node = a) =
      ((m.get? a).map fun x => credit a x).toList := by
    simp only [List.filter_map, Function.comp_def, hnode]
    rw [m.filter_entries]
    cases m.get? a <;> rfl
  rw [get?_addAll, hown]
  cases m.get? a <;> rfl

/-! ## The file -/

/-- The entries that carry an amount. -/
def owed : Payouts := p.filter fun _ r => !r.isEmpty

/-- The tree over the entries that carry an amount. -/
def tree : RewardsTree :=
  RewardsTree.ofLeaves keccak256 (p.owed.entries.map fun e => e.2.leaf e.1)

/-- A node has an entry when it is owed anything: what it is owed, and a proof. -/
theorem get?_toFile {a : Address} {r : NodeRewards} :
    (p.toFile header).nodes.get? a = some r ↔
      ∃ o, p.get? a = some o ∧ o.isEmpty = false ∧
        r = { o with merkleProof := (p.tree.proof? (o.leaf a)).getD [] } := by
  have hnodes : (p.toFile header).nodes = p.owed.mapValues fun node o =>
      { o with merkleProof := (p.tree.proof? (o.leaf node)).getD [] } := rfl
  rw [hnodes, KeyMap.get?_mapValues, Option.map_eq_some_iff]
  simp only [owed, KeyMap.get?_filter_eq_some_iff, Bool.not_eq_true', and_assoc]
  constructor
  · rintro ⟨o, ho, hempty, rfl⟩
    exact ⟨o, ho, hempty, rfl⟩
  · rintro ⟨o, ho, hempty, rfl⟩
    exact ⟨o, ho, hempty, rfl⟩

/-- Proofs do not enter into the leaves. -/
theorem leaves_toFile :
    (p.toFile header).leaves = p.owed.entries.map fun e => e.2.leaf e.1 := by
  rw [RewardsFile.leaves]
  exact List.map_map

theorem treeRoot_toFile : (p.toFile header).treeRoot = (p.toFile header).merkleRoot := by
  rw [RewardsFile.treeRoot, leaves_toFile]
  rfl

/-- **The file commits to the root that it names.** -/
theorem trust_toFile : (p.toFile header).trust (p.toFile header).merkleRoot = .ok () :=
  RewardsFile.trust_eq_ok_iff.2 ⟨treeRoot_toFile p header, rfl⟩

/-- **The proof in every entry leads to the root.** -/
theorem verifyNode_toFile {a : Address} {r : NodeRewards}
    (h : (p.toFile header).nodes.get? a = some r) : (p.toFile header).verifyNode a = .ok true := by
  obtain ⟨proof, hproof, hverify⟩ := RewardsFile.proof_of_entry h
  obtain ⟨o, -, -, hr⟩ := (p.get?_toFile header).1 h
  have hleaf : r.leaf a = o.leaf a := by rw [hr]; rfl
  have hstored : r.merkleProof = proof := by
    rw [leaves_toFile, hleaf] at hproof
    rw [hr]
    exact congrArg (Option.getD · []) hproof
  rw [RewardsFile.verifyNode_eq_ok_iff h, hstored, ← treeRoot_toFile]
  exact hverify

/-! ## Totals -/

theorem foldl_totals (es : List (Address × NodeRewards)) (t : TotalRewards) :
    es.foldl (fun t e => (⟨t.collateralRpl + e.2.collateralRpl, t.oracleRpl + e.2.oracleRpl,
        t.smoothingPoolEth + e.2.smoothingPoolEth⟩ : TotalRewards)) t =
      ⟨(es.map (·.2.collateralRpl)).foldl (· + ·) t.collateralRpl,
        (es.map (·.2.oracleRpl)).foldl (· + ·) t.oracleRpl,
        (es.map (·.2.smoothingPoolEth)).foldl (· + ·) t.smoothingPoolEth⟩ := by
  induction es generalizing t with
  | nil => rfl
  | cons e es ih => rw [List.foldl_cons, ih]; rfl

/-- **The totals are the sums over the entries.** -/
theorem totals_toFile :
    (p.toFile header).totals =
      ⟨sumWords ((p.toFile header).nodes.entries.map (·.2.collateralRpl)),
        sumWords ((p.toFile header).nodes.entries.map (·.2.oracleRpl)),
        sumWords ((p.toFile header).nodes.entries.map (·.2.smoothingPoolEth))⟩ := by
  have htotals : (p.toFile header).totals = Payouts.totals p.owed := rfl
  have hentries : (p.toFile header).nodes.entries = p.owed.entries.map fun e =>
      (e.1, { e.2 with merkleProof := (p.tree.proof? (e.2.leaf e.1)).getD [] }) := rfl
  rw [htotals, Payouts.totals, foldl_totals, hentries, List.map_map, List.map_map, List.map_map]
  rfl

/-- Entries that carry no amount add nothing to the sum. -/
theorem exactSum_collateralRpl_toFile :
    exactSum ((p.toFile header).nodes.entries.map (·.2.collateralRpl)) =
      exactSum (p.entries.map (·.2.collateralRpl)) := by
  have hentries : (p.toFile header).nodes.entries.map (·.2.collateralRpl) =
      p.owed.entries.map (·.2.collateralRpl) := List.map_map
  rw [hentries]
  refine exactSum_filter fun e _ hempty => ?_
  simp only [NodeRewards.isEmpty, Bool.not_eq_false', Bool.and_eq_true, beq_iff_eq] at hempty
  exact hempty.1.1

end Payouts

/-! ## Shares -/

/-- The share of a weight in a pool. -/
def share (pool : Word) (weights : KeyMap 20 Word) (weight : Word) : Word :=
  if totalWeight weights = 0 then 0 else Word.saturatingMul pool weight / totalWeight weights

theorem apportion_eq (pool : Word) (weights : KeyMap 20 Word) :
    apportion pool weights = weights.mapValues fun _ => share pool weights := rfl

/-- Where nothing overflows a share is the exact quotient, rounded down. -/
theorem toNat_share {pool weight : Word} {weights : KeyMap 20 Word}
    (hsum : exactSum (weights.entries.map (·.2)) < 2 ^ 256)
    (hproduct : pool.toNat * weight.toNat < 2 ^ 256) :
    (share pool weights weight).toNat =
      pool.toNat * weight.toNat / exactSum (weights.entries.map (·.2)) := by
  have htotal : (totalWeight weights).toNat = exactSum (weights.entries.map (·.2)) := by
    rw [toNat_totalWeight, Nat.min_eq_left (by omega)]
  rw [share, ← htotal]
  split
  · rename_i hzero
    rw [hzero]
    simp
  · exact toNat_saturatingMul_div _ hproduct

end PoolKeeper
