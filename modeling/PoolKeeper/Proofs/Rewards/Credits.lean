/-
Credits, in any number and any order, and the file that pays them.

`get?_addAll_empty` is the whole history of a node: it is known once a credit
names it, and owed then what its own credits add up to, each amount modulo
`2 ^ 256`. So the order of credits does not matter (`addAll_perm`), and a node
has an entry just when these sums are not all zero, even where none of its
credits was (`get?_ofCredits`). `file_of_credits` is the file as a whole.
-/
import PoolKeeper.Proofs.Rewards.Payout
import PoolKeeper.Rewards.Json

namespace PoolKeeper

namespace NodeRewards

/-- What credits to one node add up to, without a proof. -/
def ofCredits (cs : List Credit) : NodeRewards where
  rewardNetwork := 0
  collateralRpl := sumWords (cs.map (·.collateralRpl))
  oracleRpl := sumWords (cs.map (·.oracleRpl))
  smoothingPoolEth := sumWords (cs.map (·.smoothingPoolEth))
  merkleProof := []

theorem foldl_credited (cs : List Credit) (r : NodeRewards) :
    cs.foldl credited r =
      { r with
        collateralRpl := (cs.map (·.collateralRpl)).foldl (· + ·) r.collateralRpl
        oracleRpl := (cs.map (·.oracleRpl)).foldl (· + ·) r.oracleRpl
        smoothingPoolEth := (cs.map (·.smoothingPoolEth)).foldl (· + ·) r.smoothingPoolEth } := by
  induction cs generalizing r with
  | nil => rfl
  | cons c cs ih => rw [List.foldl_cons, ih]; rfl

theorem foldl_credited_none (cs : List Credit) : cs.foldl credited .none = .ofCredits cs :=
  foldl_credited cs .none

theorem ofCredits_perm {cs cs' : List Credit} (h : cs.Perm cs') : ofCredits cs = ofCredits cs' := by
  rw [ofCredits, sumWords_perm (h.map (·.collateralRpl)), sumWords_perm (h.map (·.oracleRpl)),
    sumWords_perm (h.map (·.smoothingPoolEth)), ← ofCredits]

end NodeRewards

namespace Payouts

/-- **A node is owed the sums of its own credits**, and is not known without a credit. -/
theorem get?_addAll_empty (cs : List Credit) (a : Address) :
    (addAll .empty cs).get? a =
      if cs.filter (·.node = a) = [] then none
      else some (.ofCredits (cs.filter (·.node = a))) := by
  have hnone : (KeyMap.empty : Payouts).get? a = none := rfl
  rw [get?_addAll, hnone]
  cases cs.filter (·.node = a) with
  | nil => rfl
  | cons c own =>
    -- from the first credit on there is an entry, to which the others are added
    have hsome : own.foldl (fun r c => some ((r.getD .none).credited c))
        (some (NodeRewards.none.credited c)) =
          some (own.foldl NodeRewards.credited (NodeRewards.none.credited c)) :=
      List.foldl_hom some fun _ _ => rfl
    rw [if_neg (List.cons_ne_nil c own), List.foldl_cons, Option.getD_none, hsome,
      ← NodeRewards.foldl_credited_none, List.foldl_cons]

/-- **The order of credits does not matter.** -/
theorem addAll_perm {cs cs' : List Credit} (h : cs.Perm cs') :
    addAll .empty cs = addAll .empty cs' := by
  refine KeyMap.ext fun a => ?_
  have hown : (cs.filter (·.node = a)).Perm (cs'.filter (·.node = a)) := h.filter _
  have hnil : cs.filter (·.node = a) = [] ↔ cs'.filter (·.node = a) = [] := by
    rw [← List.length_eq_zero_iff, hown.length_eq, List.length_eq_zero_iff]
  simp only [get?_addAll_empty, hnil, NodeRewards.ofCredits_perm hown]

end Payouts

namespace RewardsFile
variable (header : IntervalHeader) (cs : List Credit)

/-- A node has an entry when its sums are not all zero: these sums, and a proof. -/
theorem get?_ofCredits {a : Address} {r : NodeRewards} :
    (ofCredits header cs).nodes.get? a = some r ↔
      (NodeRewards.ofCredits (cs.filter (·.node = a))).isEmpty = false ∧
        r = { NodeRewards.ofCredits (cs.filter (·.node = a)) with
          merkleProof := ((Payouts.addAll .empty cs).tree.proof?
            ((NodeRewards.ofCredits (cs.filter (·.node = a))).leaf a)).getD [] } := by
  rw [ofCredits, Payouts.get?_toFile, Payouts.get?_addAll_empty]
  by_cases hown : cs.filter (·.node = a) = []
  · -- no credit adds up to nothing
    rw [if_pos hown, hown]
    constructor
    · rintro ⟨o, ho, -⟩
      cases ho
    · rintro ⟨hempty, -⟩
      cases hempty
  · rw [if_neg hown]
    constructor
    · rintro ⟨o, ho, hempty, rfl⟩
      cases ho
      exact ⟨hempty, rfl⟩
    · rintro ⟨hempty, rfl⟩
      exact ⟨_, rfl, hempty, rfl⟩

/-- What a node is credited with for one reason, as a number without bound. -/
def creditedTo (cs : List Credit) (amount : Credit → Word) (a : Address) : Nat :=
  exactSum ((cs.filter (·.node = a)).map amount)

/-- Nothing is owed where each of the three sums is a multiple of `2 ^ 256`. -/
theorem isEmpty_ofCredits_iff (a : Address) :
    (NodeRewards.ofCredits (cs.filter (·.node = a))).isEmpty = true ↔
      creditedTo cs (·.collateralRpl) a % 2 ^ 256 = 0 ∧
        creditedTo cs (·.oracleRpl) a % 2 ^ 256 = 0 ∧
        creditedTo cs (·.smoothingPoolEth) a % 2 ^ 256 = 0 := by
  have hzero : ∀ ws, sumWords ws = 0 ↔ exactSum ws % 2 ^ 256 = 0 := fun ws => by
    rw [← toNat_sumWords, ← BitVec.toNat_inj]
    rfl
  simp only [NodeRewards.isEmpty, NodeRewards.ofCredits, Bool.and_eq_true, beq_iff_eq, hzero,
    creditedTo, and_assoc]

/-- **The file of any credits** pays every node what its own credits add up to, modulo `2 ^ 256`,
and lists just the nodes to which that is anything. Its totals are the sums over its entries, it
commits to the root it names, every entry's proof leads there, and any order of the credits makes
the same file, byte for byte. -/
theorem file_of_credits (header : IntervalHeader) (cs : List Credit) :
    let f := ofCredits header cs
    f.version = rewardsFileVersion ∧ f.header = header ∧
    (∀ a, (∃ r, f.nodes.get? a = some r) ↔
      ¬(creditedTo cs (·.collateralRpl) a % 2 ^ 256 = 0 ∧
        creditedTo cs (·.oracleRpl) a % 2 ^ 256 = 0 ∧
        creditedTo cs (·.smoothingPoolEth) a % 2 ^ 256 = 0)) ∧
    (∀ a r, f.nodes.get? a = some r →
      r.rewardNetwork = 0 ∧
      r.collateralRpl.toNat = creditedTo cs (·.collateralRpl) a % 2 ^ 256 ∧
      r.oracleRpl.toNat = creditedTo cs (·.oracleRpl) a % 2 ^ 256 ∧
      r.smoothingPoolEth.toNat = creditedTo cs (·.smoothingPoolEth) a % 2 ^ 256 ∧
      f.verifyNode a = .ok true) ∧
    (f.totals.collateralRpl.toNat = exactSum (f.nodes.entries.map (·.2.collateralRpl)) % 2 ^ 256 ∧
      f.totals.oracleRpl.toNat = exactSum (f.nodes.entries.map (·.2.oracleRpl)) % 2 ^ 256 ∧
      f.totals.smoothingPoolEth.toNat =
        exactSum (f.nodes.entries.map (·.2.smoothingPoolEth)) % 2 ^ 256) ∧
    f.trust f.merkleRoot = .ok () ∧
    ∀ cs', cs'.Perm cs → ofCredits header cs' = f ∧ (ofCredits header cs').text = f.text := by
  intro f
  have htotals : f.totals = _ := (Payouts.addAll .empty cs).totals_toFile header
  refine ⟨rfl, rfl, fun a => ?_, fun a r hr => ?_, ?_, ?_, fun cs' hperm => ?_⟩
  · rw [← isEmpty_ofCredits_iff, Bool.not_eq_true]
    constructor
    · rintro ⟨r, hr⟩
      exact ((get?_ofCredits header cs).1 hr).1
    · intro hempty
      exact ⟨_, (get?_ofCredits header cs).2 ⟨hempty, rfl⟩⟩
  · have hverify : f.verifyNode a = .ok true :=
      (Payouts.addAll .empty cs).verifyNode_toFile header hr
    obtain ⟨-, rfl⟩ := (get?_ofCredits header cs).1 hr
    exact ⟨rfl, toNat_sumWords _, toNat_sumWords _, toNat_sumWords _, hverify⟩
  · rw [htotals]
    exact ⟨toNat_sumWords _, toNat_sumWords _, toNat_sumWords _⟩
  · exact (Payouts.addAll .empty cs).trust_toFile header
  · have hfile : ofCredits header cs' = f := by
      rw [ofCredits, Payouts.addAll_perm hperm, ← ofCredits]
    exact ⟨hfile, congrArg text hfile⟩

/-- One node is credited twice. Another is credited until its sum wraps to zero, and is left out. -/
theorem file_of_wrapping_credits :
    let header : IntervalHeader := ⟨4, "holesky", 0, 0, 0, 0, 1⟩
    let cs : List Credit := [⟨.ofNat 1, 3, 0, 1⟩, ⟨.ofNat 2, .allOnes 256, 0, 0⟩,
      ⟨.ofNat 1, 4, 2, 0⟩, ⟨.ofNat 2, 1, 0, 0⟩]
    let f := ofCredits header cs
    (∃ r, f.nodes.get? (.ofNat 1) = some r ∧ r.collateralRpl.toNat = 7 ∧ r.oracleRpl.toNat = 2 ∧
      r.smoothingPoolEth.toNat = 1 ∧ f.verifyNode (.ofNat 1) = .ok true) ∧
    (¬∃ r, f.nodes.get? (.ofNat 2) = some r) ∧
    cs.reverse.Perm cs ∧ ofCredits header cs.reverse = f ∧
      (ofCredits header cs.reverse).text = f.text := by
  intro header cs f
  obtain ⟨-, -, hentry, hsums, -, -, hperm⟩ := file_of_credits header cs
  refine ⟨?_, ?_, cs.reverse_perm, hperm _ cs.reverse_perm⟩
  · obtain ⟨r, hr⟩ := (hentry (.ofNat 1)).2 (by decide)
    obtain ⟨-, hcollateral, horacle, hpool, hverify⟩ := hsums _ r hr
    exact ⟨r, hr, hcollateral.trans (by decide), horacle.trans (by decide),
      hpool.trans (by decide), hverify⟩
  · rw [hentry]
    decide

end RewardsFile
end PoolKeeper
