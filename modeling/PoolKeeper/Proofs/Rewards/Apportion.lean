/-
How much of a pool is handed out.

Shares are rounded down, so they stay within the pool as long as the total that
they are divided by is the sum of the weights. A word cannot hold every sum: when
the weights add up to more than the largest word, that word is the total, and then
a share is one or nothing (`toNat_share_of_overflow`). What is handed out is
therefore the number of weights that are large enough to get one, which may be
more than there is (`overdrawn_by_largest_weights`).
-/
import Mathlib.Algebra.Order.BigOperators.Group.List
import Mathlib.Algebra.Order.Group.Nat
import PoolKeeper.Proofs.Rewards.Payout

namespace PoolKeeper

variable (pool : Word) (weights : KeyMap 20 Word)

/-- A share, whatever overflows: the product that a word can hold, by the total that a word can
hold. -/
theorem toNat_share_eq (weight : Word) :
    (share pool weights weight).toNat =
      min (pool.toNat * weight.toNat) (2 ^ 256 - 1) /
        min (exactSum (weights.entries.map (·.2))) (2 ^ 256 - 1) := by
  rw [← toNat_totalWeight, share]
  split
  · rename_i hzero
    simp [hzero]
  · rw [BitVec.toNat_udiv, Word.toNat_saturatingMul]

theorem exactSum_apportion :
    exactSum ((apportion pool weights).entries.map (·.2)) =
      (weights.entries.map fun e => (share pool weights e.2).toNat).sum := by
  rw [apportion_eq, KeyMap.mapValues, exactSum, List.map_map, List.map_map]
  rfl

/-- **Shares of a total that is not cut off stay within the pool**, even if products overflow. -/
theorem exactSum_apportion_le (hfits : exactSum (weights.entries.map (·.2)) < 2 ^ 256) :
    exactSum ((apportion pool weights).entries.map (·.2)) ≤ pool.toNat := by
  have hshare : ∀ e ∈ weights.entries, (share pool weights e.2).toNat ≤
      pool.toNat * e.2.toNat / exactSum (weights.entries.map (·.2)) := by
    intro e _
    rw [toNat_share_eq, Nat.min_eq_left (by omega : exactSum _ ≤ 2 ^ 256 - 1)]
    exact Nat.div_le_div_right (Nat.min_le_left _ _)
  have hexact := sum_shares_le pool.toNat (weights.entries.map (·.2.toNat))
  rw [List.map_map] at hexact
  rw [exactSum_apportion]
  refine (List.sum_le_sum hshare).trans ?_
  simpa [exactSum, Function.comp_def] using hexact

/-- A weight gets one when its product with the pool reaches the largest word. -/
def GetsOne (weight : Word) : Prop := 2 ^ 256 - 1 ≤ pool.toNat * weight.toNat

instance (weight : Word) : Decidable (GetsOne pool weight) :=
  inferInstanceAs (Decidable (_ ≤ _))

variable {pool weights} in
/-- By a total that is cut off a share is one or nothing. -/
theorem toNat_share_of_overflow (hover : 2 ^ 256 ≤ exactSum (weights.entries.map (·.2)))
    (weight : Word) :
    (share pool weights weight).toNat = if GetsOne pool weight then 1 else 0 := by
  rw [toNat_share_eq, Nat.min_eq_right (by omega : 2 ^ 256 - 1 ≤ exactSum _)]
  by_cases hone : GetsOne pool weight
  · rw [if_pos hone, Nat.min_eq_right hone]
  · have hless : pool.toNat * weight.toNat < 2 ^ 256 - 1 := Nat.lt_of_not_le hone
    rw [if_neg hone, Nat.min_eq_left (by omega), Nat.div_eq_of_lt hless]

/-- What is handed out by a total that is cut off: one to each weight that is large enough. -/
theorem exactSum_apportion_of_overflow
    (hover : 2 ^ 256 ≤ exactSum (weights.entries.map (·.2))) :
    exactSum ((apportion pool weights).entries.map (·.2)) =
      weights.entries.countP fun e => GetsOne pool e.2 := by
  rw [exactSum_apportion]
  simp only [toNat_share_of_overflow hover]
  induction weights.entries with
  | nil => rfl
  | cons e es ih => simp [List.countP_cons, ih, Nat.add_comm]

/-- **What is handed out is at most the pool** just when a word can hold the sum of the weights, or
no more weights get one than there is to hand out. -/
theorem exactSum_apportion_le_iff :
    exactSum ((apportion pool weights).entries.map (·.2)) ≤ pool.toNat ↔
      exactSum (weights.entries.map (·.2)) < 2 ^ 256 ∨
        (weights.entries.countP fun e => GetsOne pool e.2) ≤ pool.toNat := by
  by_cases hfits : exactSum (weights.entries.map (·.2)) < 2 ^ 256
  · exact iff_of_true (exactSum_apportion_le pool weights hfits) (.inl hfits)
  · rw [exactSum_apportion_of_overflow pool weights (Nat.le_of_not_lt hfits)]
    simp only [hfits, false_or]

/-- Two nodes with the largest weight there is. -/
def largestWeights : KeyMap 20 Word := .ofList [(.ofNat 1, Word.max), (.ofNat 2, Word.max)]

/-- **Of a pool of one, two are handed out**: each of the two largest weights gets one. -/
theorem overdrawn_by_largest_weights :
    exactSum ((apportion 1 largestWeights).entries.map (·.2)) = 2 ∧
      ¬ exactSum ((apportion 1 largestWeights).entries.map (·.2)) ≤ (1 : Word).toNat := by
  decide +kernel

end PoolKeeper
