/-
The Merkle tree over the leaves of a rewards file.

Leaves are sorted first. A parent hashes its two children in ascending order,
so a proof is the list of siblings alone, without directions; a node without a
sibling moves up unchanged. The hash function is a parameter: nothing here
depends on which one it is.
-/
import PoolKeeper.FixedBytes

namespace PoolKeeper

/-- The bytes that a parent is the hash of: the smaller child first. -/
def pairBytes (a b : Hash) : Bytes :=
  if a ≤ b then a.toBytes ++ b.toBytes else b.toBytes ++ a.toBytes

/-- The parent of two nodes. -/
def joinHashes (hash : Bytes → Hash) (a b : Hash) : Hash := hash (pairBytes a b)

/-- The tree as its levels, the sorted leaves first and the root last. -/
structure RewardsTree where
  levels : List (List Hash)

namespace RewardsTree
variable (hash : Bytes → Hash)

/-- The level above: neighbours joined two by two, the last one kept when it
has no sibling. -/
def parents : List Hash → List Hash
  | a :: b :: rest => joinHashes hash a b :: parents rest
  | rest => rest

theorem length_parents (level : List Hash) :
    (parents hash level).length = (level.length + 1) / 2 := by
  fun_induction parents hash level with
  | case1 a b rest ih =>
    simp only [List.length_cons, ih]
    omega
  | case2 rest h =>
    match rest, h with
    | [], _ => simp
    | [_], _ => simp
    | a :: b :: rest, h => exact absurd rfl (h a b rest)

/-- A level and all levels above it. -/
def climb (level : List Hash) : List (List Hash) :=
  if _h : 1 < level.length then level :: climb (parents hash level) else [level]
termination_by level.length
decreasing_by
  rw [length_parents]
  omega

def sortLeaves (leaves : List Hash) : List Hash := leaves.mergeSort fun a b => a ≤ b

/-- The tree over leaves given in any order. -/
def ofLeaves (leaves : List Hash) : RewardsTree := ⟨climb hash (sortLeaves leaves)⟩

variable (t : RewardsTree)

def leaves : List Hash := t.levels.headD []

def size : Nat := t.leaves.length

/-- The hash at the top, all zero for no leaves. -/
def root : Hash := ((t.levels.getLast?.getD []).head?).getD .zero

/-- Where a leaf stands among the sorted leaves; of equal leaves the last. -/
def position? (leaves : List Hash) (leaf : Hash) : Option Nat :=
  let upTo := (leaves.takeWhile (· ≤ leaf)).length
  if leaves[upTo - 1]? = some leaf then some (upTo - 1) else none

/-- The siblings met on the way up from position `i`, below the top level. -/
def siblings : List (List Hash) → Nat → List Hash
  | level :: above :: rest, i => (level[i ^^^ 1]?).toList ++ siblings (above :: rest) (i / 2)
  | _, _ => []

/-- The siblings that lead from a leaf to the root, if it is a leaf. -/
def proof? (leaf : Hash) : Option (List Hash) :=
  (position? t.leaves leaf).map (siblings t.levels)

/-- A proof joined to a leaf, sibling after sibling. -/
def fold (leaf : Hash) (proof : List Hash) : Hash := proof.foldl (joinHashes hash) leaf

/-- A proof leads from a leaf to a root. -/
def verify (leaf : Hash) (proof : List Hash) (root : Hash) : Bool := fold hash leaf proof == root

end RewardsTree
end PoolKeeper
