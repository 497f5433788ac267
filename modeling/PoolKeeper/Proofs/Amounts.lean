/-
Sums of amounts, and shares of them.

A sum of words wraps; `exactSum` is the sum as a number, and `toNat_sumWords`
says what a wrapping sum keeps of it. Shares in proportion to weights are
rounded down, so together they are at most what is shared out, and fall short
of it by less than the number of weights that are not zero
(`sum_shares_le`, `lt_sum_shares_add`).
-/
import Mathlib.Algebra.BigOperators.Group.List.Basic
import Mathlib.Algebra.GroupWithZero.Nat
import PoolKeeper.Rewards.Payout
import PoolKeeper.Stake

namespace PoolKeeper

/-- The sum of words as a number without bound. -/
def exactSum (ws : List Word) : Nat := (ws.map BitVec.toNat).sum

theorem exactSum_cons (w : Word) (ws : List Word) :
    exactSum (w :: ws) = w.toNat + exactSum ws := rfl

theorem exactSum_append (ws ws' : List Word) :
    exactSum (ws ++ ws') = exactSum ws + exactSum ws' := by
  rw [exactSum, List.map_append, List.sum_append]
  rfl

/-- The order of the words does not matter. -/
theorem exactSum_perm {ws ws' : List Word} (h : ws.Perm ws') : exactSum ws = exactSum ws' :=
  (h.map _).sum_eq

/-- Words that are zero may be left out. -/
theorem exactSum_filter {α : Type} {p : α → Bool} {amount : α → Word} {xs : List α}
    (h : ∀ x ∈ xs, p x = false → amount x = 0) :
    exactSum ((xs.filter p).map amount) = exactSum (xs.map amount) := by
  induction xs with
  | nil => rfl
  | cons x xs ih =>
    obtain ⟨hx, hxs⟩ := List.forall_mem_cons.1 h
    rw [List.map_cons, exactSum_cons, ← ih hxs]
    cases hp : p x with
    | true => rw [List.filter_cons_of_pos hp, List.map_cons, exactSum_cons]
    | false => rw [List.filter_cons_of_neg (by simp [hp]), hx hp]; simp

theorem toNat_foldl_add (ws : List Word) (w : Word) :
    (ws.foldl (· + ·) w).toNat = (w.toNat + exactSum ws) % 2 ^ 256 := by
  induction ws generalizing w with
  | nil => simp [exactSum, Nat.mod_eq_of_lt w.isLt]
  | cons w' ws ih =>
    rw [List.foldl_cons, ih, BitVec.toNat_add, exactSum_cons, Nat.mod_add_mod, Nat.add_assoc]

theorem toNat_sumWords (ws : List Word) : (sumWords ws).toNat = exactSum ws % 2 ^ 256 := by
  rw [sumWords, toNat_foldl_add]
  simp

theorem toNat_sumWords_of_lt {ws : List Word} (h : exactSum ws < 2 ^ 256) :
    (sumWords ws).toNat = exactSum ws := by
  rw [toNat_sumWords, Nat.mod_eq_of_lt h]

/-- Nor does it matter to a sum that wraps. -/
theorem sumWords_perm {ws ws' : List Word} (h : ws.Perm ws') : sumWords ws = sumWords ws' :=
  BitVec.eq_of_toNat_eq (by rw [toNat_sumWords, toNat_sumWords, exactSum_perm h])

theorem toNat_foldl_saturatingAdd (ws : List Word) (w : Word) :
    (ws.foldl Word.saturatingAdd w).toNat = min (w.toNat + exactSum ws) (2 ^ 256 - 1) := by
  induction ws generalizing w with
  | nil =>
    have := w.isLt
    rw [List.foldl_nil, exactSum, List.map_nil, List.sum_nil]
    omega
  | cons w' ws ih =>
    rw [List.foldl_cons, ih, Word.toNat_saturatingAdd, exactSum_cons]
    omega

theorem toNat_totalWeight (weights : KeyMap 20 Word) :
    (totalWeight weights).toNat = min (exactSum (weights.entries.map (·.2))) (2 ^ 256 - 1) := by
  rw [totalWeight, ← List.foldl_map, toNat_foldl_saturatingAdd]
  simp

/-- A product that fits is divided as it is. -/
theorem toNat_saturatingMul_div {a b : Word} (c : Word) (h : a.toNat * b.toNat < 2 ^ 256) :
    (Word.saturatingMul a b / c).toNat = a.toNat * b.toNat / c.toNat := by
  rw [BitVec.toNat_udiv, Word.toNat_saturatingMul, Nat.min_eq_left (by omega)]

/-! ## Shares in proportion to weights -/

/-- What rounding takes away from the shares is what is missing of the whole. -/
theorem sum_shares (pool total : Nat) (ws : List Nat) :
    total * (ws.map fun w => pool * w / total).sum + (ws.map fun w => pool * w % total).sum =
      pool * ws.sum := by
  induction ws with
  | nil => rfl
  | cons w ws ih =>
    have hw := Nat.div_add_mod (pool * w) total
    simp only [List.map_cons, List.sum_cons, Nat.mul_add]
    omega

/-- **Shares that are rounded down never exceed the whole.** -/
theorem sum_shares_le (pool : Nat) (ws : List Nat) :
    (ws.map fun w => pool * w / ws.sum).sum ≤ pool := by
  rcases Nat.eq_zero_or_pos ws.sum with hzero | hpos
  · simp [hzero]
  · refine Nat.le_of_mul_le_mul_left ?_ hpos
    have hsum := sum_shares pool ws.sum ws
    rw [Nat.mul_comm pool] at hsum
    omega

/-- Each weight that is not zero loses less than one to rounding. -/
theorem sum_remainders_le {total : Nat} (htotal : 0 < total) (pool : Nat) (ws : List Nat) :
    (ws.map fun w => pool * w % total).sum + ws.countP (· ≠ 0) ≤ total * ws.countP (· ≠ 0) := by
  induction ws with
  | nil => simp
  | cons w ws ih =>
    have hmod := Nat.mod_lt (pool * w) htotal
    rw [List.map_cons, List.sum_cons]
    by_cases hw : w = 0
    · rw [List.countP_cons_of_neg (by simpa using hw), hw, Nat.mul_zero, Nat.zero_mod, Nat.zero_add]
      exact ih
    · rw [List.countP_cons_of_pos (by simpa using hw), Nat.mul_add, Nat.mul_one]
      omega

/-- **They fall short of the whole by less than one for each weight** that is not zero. -/
theorem lt_sum_shares_add {ws : List Nat} (hpos : 0 < ws.countP (· ≠ 0)) (pool : Nat) :
    pool < (ws.map fun w => pool * w / ws.sum).sum + ws.countP (· ≠ 0) := by
  have htotal : 0 < ws.sum := by
    obtain ⟨w, hw, hne⟩ := List.countP_pos_iff.1 hpos
    exact List.sum_pos_iff_exists_pos_nat.2 ⟨w, hw, Nat.pos_of_ne_zero (by simpa using hne)⟩
  have hsum := sum_shares pool ws.sum ws
  have hremainders := sum_remainders_le htotal pool ws
  refine Nat.lt_of_mul_lt_mul_left (a := ws.sum) ?_
  rw [Nat.mul_add, Nat.mul_comm ws.sum pool]
  omega

end PoolKeeper
