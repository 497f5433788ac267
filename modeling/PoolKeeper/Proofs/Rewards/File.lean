/-
A rewards file and the tree over its own entries: every entry has a proof that
leads to the file's root (`proof_of_entry`).
-/
import PoolKeeper.Proofs.KeyMap
import PoolKeeper.Proofs.Rewards.Paths
import PoolKeeper.Rewards.File

namespace PoolKeeper.RewardsFile

variable {f : RewardsFile} {node : Address} {r : NodeRewards}

theorem mem_leaves {x : Hash} :
    x ∈ f.leaves ↔ ∃ node r, (node, r) ∈ f.nodes.entries ∧ r.leaf node = x := by
  simp [leaves]

theorem treeRoot_of_nil (h : f.nodes.entries = []) : f.treeRoot = .zero := by
  rw [treeRoot, leaves, h]
  simp [RewardsTree.ofLeaves, RewardsTree.sortLeaves, RewardsTree.climb_of_le_one,
    RewardsTree.root]

theorem verifyNode_eq_ok_iff (h : f.nodes.get? node = some r) {ok : Bool} :
    f.verifyNode node = .ok ok ↔
      RewardsTree.verify keccak256 (r.leaf node) r.merkleProof f.merkleRoot = ok := by
  rw [verifyNode, h, Except.ok.injEq]

/-- **Every entry of a file can be claimed**: the tree over the entries has a proof of its leaf,
and the proof is accepted against the root that the file commits to. -/
theorem proof_of_entry (h : f.nodes.get? node = some r) :
    ∃ proof, (RewardsTree.ofLeaves keccak256 f.leaves).proof? (r.leaf node) = some proof ∧
      RewardsTree.verify keccak256 (r.leaf node) proof f.treeRoot = true := by
  have hmem : r.leaf node ∈ f.leaves :=
    mem_leaves.2 ⟨node, r, KeyMap.get?_eq_some_iff.1 h, rfl⟩
  obtain ⟨proof, hproof⟩ :=
    Option.isSome_iff_exists.1 ((RewardsTree.proof?_isSome_iff keccak256 f.leaves _).2 hmem)
  obtain ⟨i, hi, rfl⟩ := RewardsTree.proof?_eq_some keccak256 f.leaves hproof
  exact ⟨_, hproof, RewardsTree.verify_siblings keccak256 f.leaves hi⟩

end PoolKeeper.RewardsFile
