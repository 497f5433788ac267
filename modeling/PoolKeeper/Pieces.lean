/-
Cutting a list into pieces of one size.
-/
namespace PoolKeeper

/-- Pieces of `n` items, the last as long as what is left. -/
def pieces {α : Type} (n : Nat) (xs : List α) : List (List α) :=
  if _h : 0 < n ∧ xs ≠ [] then xs.take n :: pieces n (xs.drop n) else []
termination_by xs.length
decreasing_by
  have : 0 < xs.length := List.length_pos_iff.2 _h.2
  simp only [List.length_drop]
  omega

theorem flatten_pieces {α : Type} {n : Nat} (hn : 0 < n) (xs : List α) :
    (pieces n xs).flatten = xs := by
  fun_induction pieces n xs with
  | case1 xs h ih => simp [ih]
  | case2 xs h =>
    have : xs = [] := by simpa [hn] using h
    simp [this]

theorem length_le_of_mem_pieces {α : Type} {n : Nat} {xs page : List α} (h : page ∈ pieces n xs) :
    page.length ≤ n := by
  fun_induction pieces n xs with
  | case1 xs hxs ih =>
    rcases List.mem_cons.1 h with rfl | h
    · exact List.length_take_le n xs
    · exact ih h
  | case2 xs hxs => cases h

theorem ne_nil_of_mem_pieces {α : Type} {n : Nat} {xs page : List α} (h : page ∈ pieces n xs) :
    page ≠ [] := by
  fun_induction pieces n xs with
  | case1 xs hxs ih =>
    rcases List.mem_cons.1 h with rfl | h
    · exact fun hnil => (List.take_eq_nil_iff.1 hnil).elim (Nat.ne_of_gt hxs.1) hxs.2
    · exact ih h
  | case2 xs hxs => cases h

/-- Only the last piece is shorter than the others. -/
theorem length_of_mem_dropLast_pieces {α : Type} {n : Nat} {xs page : List α}
    (h : page ∈ (pieces n xs).dropLast) : page.length = n := by
  fun_induction pieces n xs with
  | case1 xs hxs ih =>
    rcases hrest : pieces n (xs.drop n) with _ | ⟨next, rest⟩
    · rw [hrest] at h
      cases h
    · rw [hrest] at h ih
      rcases List.mem_cons.1 h with rfl | h
      · -- a piece follows, so there is something behind the first `n` items
        have hne : xs.drop n ≠ [] := by
          intro hnil
          rw [hnil, pieces, dif_neg fun h => h.2 rfl] at hrest
          cases hrest
        have hlt : n < xs.length := Nat.lt_of_not_le fun hle => hne (List.drop_of_length_le hle)
        rw [List.length_take, Nat.min_eq_left (Nat.le_of_lt hlt)]
      · exact ih h
  | case2 xs hxs => cases h

theorem mul_length_pieces_le {α : Type} (n : Nat) (xs : List α) :
    n * (pieces n xs).length ≤ xs.length + n := by
  fun_induction pieces n xs with
  | case1 xs hxs ih =>
    rw [List.length_cons, Nat.mul_succ]
    rw [List.length_drop] at ih
    rcases Nat.lt_or_ge xs.length n with hlt | hle
    · rw [List.drop_of_length_le (Nat.le_of_lt hlt), pieces, dif_neg fun h => h.2 rfl,
        List.length_nil, Nat.mul_zero]
      omega
    · omega
  | case2 xs hxs => simp

theorem length_pieces_le {α : Type} {n : Nat} (hn : 2 ≤ n) (xs : List α) :
    (pieces n xs).length ≤ (xs.length + 1) / 2 := by
  fun_induction pieces n xs with
  | case1 xs h ih =>
    simp only [List.length_drop, List.length_cons] at *
    have : 0 < xs.length := List.length_pos_iff.2 h.2
    omega
  | case2 xs h => simp

end PoolKeeper
