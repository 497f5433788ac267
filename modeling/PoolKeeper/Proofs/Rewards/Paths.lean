/-
Proofs that are read off a tree lead to its root.

`parents_getElem?` is the step: the node above a node is that node joined to
its sibling, or the node itself when it has none. `fold_siblings` climbs from
any position of any level to the top by that step. Nothing is asked of the hash
function, and equal leaves may stand anywhere: each of their positions has a
path of its own, and every path is accepted.
-/
import Mathlib.Data.List.Pairwise
import Mathlib.Data.Nat.Bitwise
import Mathlib.Data.Nat.Log
import PoolKeeper.Hash.Keccak
import PoolKeeper.KeyMap
import PoolKeeper.Rewards.Tree

namespace PoolKeeper

/-- A parent does not depend on which of its children comes first. -/
theorem pairBytes_comm (a b : Hash) : pairBytes a b = pairBytes b a := by
  unfold pairBytes
  by_cases hab : a ≤ b <;> by_cases hba : b ≤ a
  · rw [FixedBytes.le_antisymm hab hba]
  · rw [if_pos hab, if_neg hba]
  · rw [if_neg hab, if_pos hba]
  · exact absurd (FixedBytes.le_total a b) (by simp [hab, hba])

theorem joinHashes_comm (hash : Bytes → Hash) (a b : Hash) :
    joinHashes hash a b = joinHashes hash b a := by
  rw [joinHashes, joinHashes, pairBytes_comm]

namespace RewardsTree

/-! ## One level up -/

section Levels
variable (hash : Bytes → Hash)

/-- Two neighbours are joined above. -/
theorem parents_getElem?_pair {level : List Hash} {k : Nat} {a b : Hash}
    (ha : level[2 * k]? = some a) (hb : level[2 * k + 1]? = some b) :
    (parents hash level)[k]? = some (joinHashes hash a b) := by
  induction k generalizing level with
  | zero =>
    match level, ha, hb with
    | c :: d :: rest, ha, hb =>
      simp only [Nat.mul_zero, List.getElem?_cons_zero, Option.some.injEq] at ha
      simp only [Nat.mul_zero, Nat.zero_add, List.getElem?_cons_succ, List.getElem?_cons_zero,
        Option.some.injEq] at hb
      subst ha hb
      rfl
  | succ k ih =>
    match level, ha, hb with
    | c :: d :: rest, ha, hb =>
      rw [parents, List.getElem?_cons_succ]
      refine ih ?_ ?_
      · simpa [Nat.mul_add] using ha
      · simpa [Nat.mul_add] using hb

/-- A last node without a sibling stands above as it is. -/
theorem parents_getElem?_last {level : List Hash} {k : Nat} {a : Hash}
    (ha : level[2 * k]? = some a) (hb : level[2 * k + 1]? = none) :
    (parents hash level)[k]? = some a := by
  induction k generalizing level with
  | zero =>
    match level, ha, hb with
    | [c], ha, _ => exact ha
  | succ k ih =>
    match level, ha, hb with
    | c :: d :: rest, ha, hb =>
      rw [parents, List.getElem?_cons_succ]
      refine ih ?_ ?_
      · simpa [Nat.mul_add] using ha
      · simpa [Nat.mul_add] using hb

/-- The node above a node is that node joined to its sibling, if it has one. -/
theorem parents_getElem? {level : List Hash} {i : Nat} {x : Hash} (hx : level[i]? = some x) :
    (parents hash level)[i / 2]? = some (fold hash x (level[i ^^^ 1]?).toList) := by
  rcases Nat.even_or_odd i with he | ho
  · obtain ⟨k, rfl⟩ := he.two_dvd
    rw [Nat.xor_one_of_even he, Nat.mul_div_cancel_left k (by decide)]
    cases hs : level[2 * k + 1]? with
    | none => exact parents_getElem?_last hash hx hs
    | some s => exact parents_getElem?_pair hash hx hs
  · obtain ⟨k, rfl⟩ := ho
    rw [Nat.xor_one_of_odd ⟨k, rfl⟩, show (2 * k + 1) / 2 = k by omega, Nat.add_sub_cancel]
    -- A right child always has a left sibling.
    have hlt : 2 * k < level.length := by
      have := (List.getElem?_eq_some_iff.1 hx).1
      omega
    rw [List.getElem?_eq_getElem hlt,
      parents_getElem?_pair hash (List.getElem?_eq_getElem hlt) hx, joinHashes_comm]
    rfl

/-! ## All the way up -/

theorem climb_eq_cons (level : List Hash) :
    ∃ above, climb hash level = level :: above := by
  rw [climb]
  split
  · exact ⟨_, rfl⟩
  · exact ⟨[], rfl⟩

theorem climb_of_one_lt {level : List Hash} (h : 1 < level.length) :
    climb hash level = level :: climb hash (parents hash level) := by
  rw [climb, dif_pos h]

theorem climb_of_le_one {level : List Hash} (h : level.length ≤ 1) :
    climb hash level = [level] := by
  rw [climb, dif_neg (by omega)]

/-- As many levels lie above the leaves as it takes to halve their number, rounding up, until one
is left. -/
theorem length_climb (level : List Hash) :
    (climb hash level).length = Nat.clog 2 level.length + 1 := by
  fun_induction climb hash level with
  | case1 level h ih =>
    rw [length_parents] at ih
    rw [List.length_cons, ih, Nat.clog_of_one_lt (by decide) h]
    rfl
  | case2 level h => simp [Nat.clog_of_right_le_one (by omega : level.length ≤ 1)]

theorem root_climb_singleton (x : Hash) : root ⟨climb hash [x]⟩ = x := by
  rw [climb_of_le_one hash (by simp)]
  rfl

/-- The root lies above every level. -/
theorem root_climb_of_one_lt {level : List Hash} (h : 1 < level.length) :
    root ⟨climb hash level⟩ = root ⟨climb hash (parents hash level)⟩ := by
  obtain ⟨above, habove⟩ := climb_eq_cons hash (parents hash level)
  simp only [root, climb_of_one_lt hash h, habove, List.getLast?_cons_cons]

/-- The root over two leaves is their parent, whichever comes first. -/
theorem root_ofLeaves_pair (a b : Hash) : root (ofLeaves hash [a, b]) = joinHashes hash a b := by
  have key : ∀ x y : Hash, root ⟨climb hash [x, y]⟩ = joinHashes hash x y := fun x y => by
    rw [root_climb_of_one_lt hash (by simp), parents]
    exact root_climb_singleton hash _
  rw [ofLeaves, sortLeaves]
  by_cases hab : a ≤ b
  · simp [List.mergeSort, hab, key]
  · simp [List.mergeSort, hab, key, joinHashes_comm hash b a]

theorem siblings_climb_of_one_lt {level : List Hash} (h : 1 < level.length) (i : Nat) :
    siblings (climb hash level) i =
      (level[i ^^^ 1]?).toList ++ siblings (climb hash (parents hash level)) (i / 2) := by
  obtain ⟨above, habove⟩ := climb_eq_cons hash (parents hash level)
  rw [climb_of_one_lt hash h, habove, siblings]

/-- **The siblings of a node lead from it to the root**, from every position of a level. -/
theorem fold_siblings {level : List Hash} {i : Nat} {x : Hash} (hx : level[i]? = some x) :
    fold hash x (siblings (climb hash level) i) = root ⟨climb hash level⟩ := by
  fun_induction climb hash level generalizing i x with
  | case1 level h ih =>
    have hup := ih (parents_getElem? hash hx)
    rw [← climb_of_one_lt hash h, siblings_climb_of_one_lt hash h, root_climb_of_one_lt hash h,
      ← hup, fold, fold, fold, List.foldl_append]
  | case2 level h =>
    match level, h, i, hx with
    | [y], _, 0, hx =>
      obtain rfl : y = x := by simpa using hx
      rfl
    | a :: b :: rest, h, _, _ => simp at h

end Levels

/-- At most one sibling is met below each level but the lowest. -/
theorem length_siblings_le (levels : List (List Hash)) (i : Nat) :
    (siblings levels i).length ≤ levels.length - 1 := by
  fun_induction siblings levels i with
  | case1 level above rest i ih =>
    have hone : (level[i ^^^ 1]?).toList.length ≤ 1 := by cases level[i ^^^ 1]? <;> simp
    simp only [List.length_append, List.length_cons, Nat.add_sub_cancel] at ih ⊢
    omega
  | case2 => simp

/-! ## Finding a leaf -/

theorem mem_sortLeaves {leaves : List Hash} {x : Hash} : x ∈ sortLeaves leaves ↔ x ∈ leaves :=
  List.mem_mergeSort

theorem length_sortLeaves (leaves : List Hash) : (sortLeaves leaves).length = leaves.length :=
  List.length_mergeSort leaves

theorem ascending_sortLeaves (leaves : List Hash) : (sortLeaves leaves).Pairwise (· ≤ ·) := by
  have hsort := @List.pairwise_mergeSort Hash (fun a b => decide (a ≤ b))
    (fun a b c hab hbc => by
      simp only [decide_eq_true_eq, FixedBytes.le_def] at *
      omega)
    (fun a b => by simpa using FixedBytes.le_total a b) leaves
  simpa [sortLeaves] using hsort

/-- The search finds a leaf that is there. -/
theorem position?_of_mem {leaves : List Hash} (hs : leaves.Pairwise (· ≤ ·)) {leaf : Hash}
    (hm : leaf ∈ leaves) : (position? leaves leaf).isSome = true := by
  have key : 0 < (leaves.takeWhile (· ≤ leaf)).length ∧
      leaves[(leaves.takeWhile (· ≤ leaf)).length - 1]? = some leaf := by
    induction leaves with
    | nil => simp at hm
    | cons x xs ih =>
      obtain ⟨hle, hs'⟩ := List.pairwise_cons.1 hs
      have hx : x ≤ leaf := by
        rcases List.mem_cons.1 hm with rfl | hm
        · exact (FixedBytes.le_total leaf leaf).elim id id
        · exact hle leaf hm
      rw [List.takeWhile_cons_of_pos (by simpa using hx)]
      refine ⟨by simp, ?_⟩
      by_cases hin : leaf ∈ xs
      · obtain ⟨hpos, hat⟩ := ih hs' hin
        obtain ⟨n, hn⟩ := Nat.exists_eq_add_of_lt hpos
        simp only [List.length_cons, hn] at hat ⊢
        simpa using hat
      · -- The leaf is the first one alone, so nothing behind it is small enough.
        obtain rfl : leaf = x := (List.mem_cons.1 hm).resolve_right hin
        have hnil : xs.takeWhile (· ≤ leaf) = [] := by
          cases xs with
          | nil => rfl
          | cons y ys =>
            have hy : ¬ y ≤ leaf := fun hy =>
              hin (FixedBytes.le_antisymm (hle y (by simp)) hy ▸ by simp)
            exact List.takeWhile_cons_of_neg (by simpa using hy)
        simp [hnil]
  simp [position?, key.2]

theorem getElem?_of_position? {leaves : List Hash} {leaf : Hash} {i : Nat}
    (h : position? leaves leaf = some i) : leaves[i]? = some leaf := by
  simp only [position?] at h
  split at h
  · rename_i hat
    rw [← Option.some.inj h]
    exact hat
  · cases h

variable (hash : Bytes → Hash) (leaves : List Hash)

theorem leaves_ofLeaves : (ofLeaves hash leaves).leaves = sortLeaves leaves := by
  obtain ⟨above, habove⟩ := climb_eq_cons hash (sortLeaves leaves)
  rw [RewardsTree.leaves, ofLeaves, habove, List.headD_cons]

theorem length_levels_ofLeaves :
    (ofLeaves hash leaves).levels.length = Nat.clog 2 leaves.length + 1 := by
  rw [ofLeaves, length_climb, length_sortLeaves]

/-- The path from any position that holds a leaf is accepted. -/
theorem verify_siblings {i : Nat} {leaf : Hash} (h : (sortLeaves leaves)[i]? = some leaf) :
    verify hash leaf (siblings (ofLeaves hash leaves).levels i) (ofLeaves hash leaves).root
      = true := by
  rw [verify, beq_iff_eq]
  exact fold_siblings hash h

/-- What the look-up of a proof gives is the path from a position of the leaf. -/
theorem proof?_eq_some {leaf : Hash} {proof : List Hash}
    (h : (ofLeaves hash leaves).proof? leaf = some proof) :
    ∃ i, (sortLeaves leaves)[i]? = some leaf ∧
      proof = siblings (ofLeaves hash leaves).levels i := by
  rw [proof?, leaves_ofLeaves, Option.map_eq_some_iff] at h
  obtain ⟨i, hi, rfl⟩ := h
  exact ⟨i, getElem?_of_position? hi, rfl⟩

theorem proof?_isSome_iff (leaf : Hash) :
    ((ofLeaves hash leaves).proof? leaf).isSome = true ↔ leaf ∈ leaves := by
  constructor
  · intro h
    obtain ⟨proof, hp⟩ := Option.isSome_iff_exists.1 h
    obtain ⟨i, hi, -⟩ := proof?_eq_some hash leaves hp
    exact mem_sortLeaves.1 (List.mem_of_getElem? hi)
  · intro h
    rw [proof?, leaves_ofLeaves, Option.isSome_map]
    exact position?_of_mem (ascending_sortLeaves leaves) (mem_sortLeaves.2 h)

theorem length_siblings_ofLeaves_le (i : Nat) :
    (siblings (ofLeaves hash leaves).levels i).length ≤ Nat.clog 2 leaves.length := by
  have h := length_siblings_le (ofLeaves hash leaves).levels i
  rwa [length_levels_ofLeaves, Nat.add_sub_cancel] at h

/-- **Proofs are complete.** Over any leaves, in any order and with repeats, and for any hash
function, the tree is finished after `⌈log₂ n⌉` levels above the leaves; a leaf has a proof exactly
when it is one of the leaves; and the proof that is found, like the path from any other position
of an equal leaf, is accepted against the root and has at most `⌈log₂ n⌉` hashes. -/
theorem proofs_of_leaves (leaf : Hash) :
    (ofLeaves hash leaves).levels.length = Nat.clog 2 leaves.length + 1 ∧
    (((ofLeaves hash leaves).proof? leaf).isSome = true ↔ leaf ∈ leaves) ∧
    (∀ proof, (ofLeaves hash leaves).proof? leaf = some proof →
      verify hash leaf proof (ofLeaves hash leaves).root = true ∧
        proof.length ≤ Nat.clog 2 leaves.length) ∧
    ∀ i, (ofLeaves hash leaves).leaves[i]? = some leaf →
      verify hash leaf (siblings (ofLeaves hash leaves).levels i)
          (ofLeaves hash leaves).root = true ∧
        (siblings (ofLeaves hash leaves).levels i).length ≤ Nat.clog 2 leaves.length := by
  refine ⟨length_levels_ofLeaves hash leaves, proof?_isSome_iff hash leaves leaf, ?_, ?_⟩
  · intro proof hp
    obtain ⟨i, hi, rfl⟩ := proof?_eq_some hash leaves hp
    exact ⟨verify_siblings hash leaves hi, length_siblings_ofLeaves_le hash leaves i⟩
  · intro i hi
    rw [leaves_ofLeaves] at hi
    exact ⟨verify_siblings hash leaves hi, length_siblings_ofLeaves_le hash leaves i⟩

/-- A leaf that is given twice among three has a proof of at most two hashes. -/
theorem proofs_of_repeated_leaf :
    ∃ proof, (ofLeaves keccak256 [.ofNat 3, .ofNat 1, .ofNat 3]).proof? (.ofNat 3) = some proof ∧
      verify keccak256 (.ofNat 3) proof
        (ofLeaves keccak256 [.ofNat 3, .ofNat 1, .ofNat 3]).root = true ∧
      proof.length ≤ 2 := by
  obtain ⟨-, hmem, hproof, -⟩ :=
    proofs_of_leaves keccak256 [.ofNat 3, .ofNat 1, .ofNat 3] (.ofNat 3)
  obtain ⟨proof, hp⟩ := Option.isSome_iff_exists.1 (hmem.2 (by simp))
  obtain ⟨hverify, hlength⟩ := hproof proof hp
  exact ⟨proof, hp, hverify, Nat.le_trans hlength (by decide)⟩

end RewardsTree
end PoolKeeper
