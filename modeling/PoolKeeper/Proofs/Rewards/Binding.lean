/-
What a root commits to.

A parent is the hash of 64 bytes and a leaf the hash of 116, so a digest that
stands in a tree has been made in one way only, unless two of the strings that
were hashed collide. `forall_level_of_root` walks from a root down to the leaves
of its tree, `of_fold` from the end of a proof down to where it starts; both
carry along any property that children inherit from their parent. With "is a
node of the tree of `f`" for that property they give
`entry_of_accepted_proof` and `payouts_of_common_root`.

Collisions are not assumed away: they are an outcome, and both strings are
among those that have been hashed.
-/
import PoolKeeper.Proofs.Collision
import PoolKeeper.Proofs.Rewards.File

namespace PoolKeeper

/-! ## The strings that are hashed -/

@[simp] theorem length_pairBytes (a b : Hash) : (pairBytes a b).length = 64 := by
  unfold pairBytes
  split <;> simp

/-- The string of a parent tells its children, though not their order. -/
theorem pairBytes_inj {a b c d : Hash} (h : pairBytes a b = pairBytes c d) :
    (a = c ∧ b = d) ∨ (a = d ∧ b = c) := by
  have split : ∀ {u v x y : Hash}, u.toBytes ++ v.toBytes = x.toBytes ++ y.toBytes →
      u = x ∧ v = y := fun huv => by
    obtain ⟨hu, hv⟩ := List.append_inj huv (by simp)
    exact ⟨FixedBytes.toBytes_inj hu, FixedBytes.toBytes_inj hv⟩
  unfold pairBytes at h
  split_ifs at h
  · exact .inl (split h)
  · exact .inr (split h)
  · exact .inr ⟨(split h).2, (split h).1⟩
  · exact .inl ⟨(split h).2, (split h).1⟩

theorem Bytes.bigEndian_inj {n x y : Nat} (hx : x < 256 ^ n) (hy : y < 256 ^ n)
    (h : bigEndian n x = bigEndian n y) : x = y := by
  have hn := congrArg toNat h
  rwa [toNat_bigEndian, toNat_bigEndian, Nat.mod_eq_of_lt hx, Nat.mod_eq_of_lt hy] at hn

namespace NodeRewards

/-- Two entries promise the same: one reward network, one sum of RPL, one amount of ETH. -/
def Agrees (r s : NodeRewards) : Prop :=
  r.rewardNetwork = s.rewardNetwork ∧ r.totalRpl = s.totalRpl ∧
    r.smoothingPoolEth = s.smoothingPoolEth

theorem Agrees.symm {r s : NodeRewards} (h : r.Agrees s) : s.Agrees r :=
  ⟨h.1.symm, h.2.1.symm, h.2.2.symm⟩

@[simp] theorem length_leafBytes (node : Address) (r : NodeRewards) :
    (leafBytes node r).length = 116 := by
  simp [leafBytes]

/-- The string of a leaf tells the node and what its entry promises. -/
theorem leafBytes_inj {node node' : Address} {r r' : NodeRewards}
    (h : leafBytes node r = leafBytes node' r') : node = node' ∧ r.Agrees r' := by
  obtain ⟨hnode, h⟩ := List.append_inj h (by simp)
  obtain ⟨hnetwork, h⟩ := List.append_inj h (by simp)
  obtain ⟨hrpl, heth⟩ := List.append_inj h (by simp)
  have word : ∀ {v w : Word}, Bytes.bigEndian 32 v.toNat = Bytes.bigEndian 32 w.toNat → v = w :=
    fun hvw => BitVec.eq_of_toNat_eq (Bytes.bigEndian_inj (BitVec.isLt _) (BitVec.isLt _) hvw)
  have hlt : ∀ u : UInt64, u.toNat < 256 ^ 32 := fun u => Nat.lt_trans u.toNat_lt (by decide)
  exact ⟨FixedBytes.toBytes_inj hnode,
    UInt64.toNat_inj.1 (Bytes.bigEndian_inj (hlt _) (hlt _) hnetwork), word hrpl, word heth⟩

/-- No string is both that of a leaf and that of a parent. -/
theorem leafBytes_ne_pairBytes (node : Address) (r : NodeRewards) (a b : Hash) :
    leafBytes node r ≠ pairBytes a b := fun h => by
  simpa using congrArg List.length h

end NodeRewards

namespace RewardsTree
variable (hash : Bytes → Hash)

/-- The strings that are hashed to make the level above. -/
def pairStrings : List Hash → List Bytes
  | a :: b :: rest => pairBytes a b :: pairStrings rest
  | _ => []

/-- The level above is what these strings hash to, and a last node without a sibling. -/
theorem parents_eq (level : List Hash) :
    parents hash level = (pairStrings level).map hash ++ level.drop (level.length / 2 * 2) := by
  fun_induction parents hash level with
  | case1 a b rest ih =>
    have hlen : (a :: b :: rest).length / 2 * 2 = rest.length / 2 * 2 + 2 := by
      simp only [List.length_cons]
      omega
    rw [pairStrings, List.map_cons, List.cons_append, ih, hlen]
    rfl
  | case2 level hpair =>
    cases level with
    | nil => rfl
    | cons a rest =>
      cases rest with
      | nil => simp [pairStrings]
      | cons b rest => exact absurd rfl (hpair a b rest)

/-- The strings that are hashed to make all levels above. -/
def climbStrings (level : List Hash) : List Bytes :=
  if _h : 1 < level.length then pairStrings level ++ climbStrings (parents hash level) else []
termination_by level.length
decreasing_by
  rw [length_parents]
  omega

/-- The strings that are hashed to make the tree over leaves. -/
def strings (leaves : List Hash) : List Bytes := climbStrings hash (sortLeaves leaves)

/-- The strings that are hashed to check a proof. -/
def foldStrings : Hash → List Hash → List Bytes
  | _, [] => []
  | leaf, s :: proof => pairBytes leaf s :: foldStrings (joinHashes hash leaf s) proof

/-! ## Walking down -/

/-- A node is the child of one that was made above it, or stands above as it is. -/
theorem parent_of_mem {level : List Hash} {x : Hash} (hx : x ∈ level) :
    x ∈ parents hash level ∨ ∃ a b, pairBytes a b ∈ pairStrings level ∧
      joinHashes hash a b ∈ parents hash level ∧ (x = a ∨ x = b) := by
  fun_induction parents hash level with
  | case1 a b rest ih =>
    simp only [List.mem_cons] at hx
    rcases hx with rfl | rfl | hx
    · exact .inr ⟨x, b, by simp [pairStrings], by simp, .inl rfl⟩
    · exact .inr ⟨a, x, by simp [pairStrings], by simp, .inr rfl⟩
    · rcases ih hx with h | ⟨c, d, hs, hj, hcd⟩
      · exact .inl (List.mem_cons_of_mem _ h)
      · exact .inr ⟨c, d, by simp [pairStrings, hs], List.mem_cons_of_mem _ hj, hcd⟩
  | case2 => exact .inl hx

/-- A node of the level above has been kept, or made of two nodes of this one. -/
theorem mem_of_mem_parents {level : List Hash} {x : Hash} (hx : x ∈ parents hash level) :
    x ∈ level ∨ ∃ a ∈ level, ∃ b ∈ level,
      pairBytes a b ∈ pairStrings level ∧ x = joinHashes hash a b := by
  fun_induction parents hash level with
  | case1 a b rest ih =>
    rcases List.mem_cons.1 hx with rfl | hx
    · exact .inr ⟨a, by simp, b, by simp, by simp [pairStrings], rfl⟩
    · rcases ih hx with h | ⟨c, hc, d, hd, hs, rfl⟩
      · exact .inl (by simp [h])
      · exact .inr ⟨c, by simp [hc], d, by simp [hd], by simp [pairStrings, hs], rfl⟩
  | case2 => exact .inl hx

theorem parents_ne_nil {level : List Hash} (h : level ≠ []) : parents hash level ≠ [] := by
  have hpos := List.length_pos_iff.2 h
  rw [← List.length_pos_iff, length_parents]
  omega

/-- What children have of their parents, all nodes of a level have of the root. -/
theorem forall_level_of_root {P : Hash → Prop} {level : List Hash}
    (inherit : ∀ a b, pairBytes a b ∈ climbStrings hash level → P (joinHashes hash a b) →
      P a ∧ P b)
    (hroot : P (root ⟨climb hash level⟩)) : ∀ x ∈ level, P x := by
  fun_induction climbStrings hash level with
  | case1 level h ih =>
    have above : ∀ y ∈ parents hash level, P y :=
      ih (fun a b hs => inherit a b (List.mem_append_right _ hs))
        (by rwa [root_climb_of_one_lt hash h] at hroot)
    intro x hx
    rcases parent_of_mem hash hx with hx | ⟨a, b, hs, hj, rfl | rfl⟩
    · exact above x hx
    · exact (inherit _ _ (List.mem_append_left _ hs) (above _ hj)).1
    · exact (inherit _ _ (List.mem_append_left _ hs) (above _ hj)).2
  | case2 level h =>
    intro x hx
    match level, h, hx with
    | [y], _, hx =>
      obtain rfl : x = y := by simpa using hx
      rwa [root_climb_singleton] at hroot
    | a :: b :: rest, h, _ => simp at h

/-- What a joined leaf has of its parent, the start of a proof has of its end. -/
theorem of_fold {P : Hash → Prop} {leaf : Hash} {proof : List Hash}
    (inherit : ∀ a b, pairBytes a b ∈ foldStrings hash leaf proof → P (joinHashes hash a b) → P a)
    (h : P (fold hash leaf proof)) : P leaf := by
  induction proof generalizing leaf with
  | nil => exact h
  | cons s proof ih =>
    refine inherit leaf s (by simp [foldStrings]) (ih (fun a b hs => inherit a b ?_) h)
    simp [foldStrings, hs]

/-! ## The nodes of a tree -/

/-- A hash that stands in a tree. -/
def Node (t : RewardsTree) (x : Hash) : Prop := ∃ level ∈ t.levels, x ∈ level

theorem node_root {level : List Hash} (h : level ≠ []) :
    Node ⟨climb hash level⟩ (root ⟨climb hash level⟩) := by
  fun_induction climb hash level with
  | case1 level h1 ih =>
    obtain ⟨l, hl, hx⟩ := ih (parents_ne_nil hash h)
    rw [← climb_of_one_lt hash h1, root_climb_of_one_lt hash h1]
    exact ⟨l, by simp [climb_of_one_lt hash h1, hl], hx⟩
  | case2 level h1 =>
    obtain ⟨y, rest, rfl⟩ := List.exists_cons_of_ne_nil h
    cases rest with
    | nil => exact ⟨[y], by simp, by simp [root]⟩
    | cons z rest => simp at h1

/-- A node is one of the lowest level, or it was made of two nodes. -/
theorem node_cases {level : List Hash} {x : Hash} (hx : Node ⟨climb hash level⟩ x) :
    x ∈ level ∨ ∃ a b, pairBytes a b ∈ climbStrings hash level ∧ x = joinHashes hash a b ∧
      Node ⟨climb hash level⟩ a ∧ Node ⟨climb hash level⟩ b := by
  fun_induction climbStrings hash level with
  | case1 level h ih =>
    have lift : ∀ {y}, Node ⟨climb hash (parents hash level)⟩ y → Node ⟨climb hash level⟩ y :=
      fun ⟨l, hl, hy⟩ => ⟨l, by simp [climb_of_one_lt hash h, show l ∈ _ from hl], hy⟩
    obtain ⟨l, hl, hxl⟩ := hx
    rcases List.mem_cons.1 (climb_of_one_lt hash h ▸ hl) with rfl | hl
    · exact .inl hxl
    · rcases ih ⟨l, hl, hxl⟩ with hx | ⟨a, b, hs, rfl, ha, hb⟩
      · rcases mem_of_mem_parents hash hx with hx | ⟨a, ha, b, hb, hs, rfl⟩
        · exact .inl hx
        · have here : ∀ {y}, y ∈ level → Node ⟨climb hash level⟩ y :=
            fun hy => ⟨level, by simp [climb_of_one_lt hash h], hy⟩
          exact .inr ⟨a, b, List.mem_append_left _ hs, rfl, here ha, here hb⟩
      · exact .inr ⟨a, b, List.mem_append_right _ hs, rfl, lift ha, lift hb⟩
  | case2 level h =>
    obtain ⟨l, hl, hxl⟩ := hx
    obtain rfl : l = level := by simpa [climb_of_le_one hash (by omega : level.length ≤ 1)] using hl
    exact .inl hxl

end RewardsTree

namespace RewardsFile
variable {f g : RewardsFile}

/-- The strings that are hashed to compute the root of a file. -/
def hashed (f : RewardsFile) : List Bytes :=
  f.nodes.entries.map (fun e => e.2.leafBytes e.1) ++ RewardsTree.strings keccak256 f.leaves

/-- A hash that stands in the tree of a file. -/
def Node (f : RewardsFile) (x : Hash) : Prop :=
  RewardsTree.Node (RewardsTree.ofLeaves keccak256 f.leaves) x

theorem leafBytes_mem_hashed {node : Address} {r : NodeRewards}
    (h : (node, r) ∈ f.nodes.entries) : r.leafBytes node ∈ f.hashed := by
  rw [hashed, List.mem_append, List.mem_map]
  exact .inl ⟨(node, r), h, rfl⟩

theorem pairBytes_mem_hashed {a b : Hash}
    (h : pairBytes a b ∈ RewardsTree.strings keccak256 f.leaves) : pairBytes a b ∈ f.hashed := by
  rw [hashed, List.mem_append]
  exact .inr h

/-- A node of a file's tree is the leaf of an entry, or the parent of two nodes. -/
theorem node_cases {x : Hash} (h : f.Node x) :
    (∃ node r, (node, r) ∈ f.nodes.entries ∧ r.leafBytes node ∈ f.hashed ∧ x = r.leaf node) ∨
      ∃ a b, pairBytes a b ∈ f.hashed ∧ x = joinHashes keccak256 a b ∧ f.Node a ∧ f.Node b := by
  rcases RewardsTree.node_cases keccak256 h with hx | ⟨a, b, hs, rfl, ha, hb⟩
  · obtain ⟨node, r, hm, rfl⟩ := mem_leaves.1 (RewardsTree.mem_sortLeaves.1 hx)
    exact .inl ⟨node, r, hm, leafBytes_mem_hashed hm, rfl⟩
  · exact .inr ⟨a, b, pairBytes_mem_hashed hs, rfl, ha, hb⟩

theorem hash_of_node {x : Hash} (h : f.Node x) : ∃ s ∈ f.hashed, keccak256 s = x := by
  rcases node_cases h with ⟨node, r, -, hs, rfl⟩ | ⟨a, b, hs, rfl, -, -⟩
  · exact ⟨_, hs, rfl⟩
  · exact ⟨_, hs, rfl⟩

theorem sortLeaves_ne_nil (h : f.nodes.entries ≠ []) : RewardsTree.sortLeaves f.leaves ≠ [] := by
  rw [← List.length_pos_iff] at h ⊢
  rwa [RewardsTree.length_sortLeaves, leaves, List.length_map]

theorem node_treeRoot (h : f.nodes.entries ≠ []) : f.Node f.treeRoot :=
  RewardsTree.node_root keccak256 (sortLeaves_ne_nil h)

section Safe
variable {strings : List Bytes} (safe : ¬ Collision keccak256 strings) (hf : f.hashed ⊆ strings)
include safe hf

/-- A parent that stands in the tree was made there, so its children stand there too. -/
theorem children_of_node {a b : Hash} (hs : pairBytes a b ∈ strings)
    (h : f.Node (joinHashes keccak256 a b)) : f.Node a ∧ f.Node b := by
  rcases node_cases h with ⟨node, r, -, hs', heq⟩ | ⟨c, d, hs', heq, hc, hd⟩
  · exact absurd (eq_of_hash_eq safe hs (hf hs') heq).symm
      (NodeRewards.leafBytes_ne_pairBytes node r a b)
  · rcases pairBytes_inj (eq_of_hash_eq safe hs (hf hs') heq) with ⟨rfl, rfl⟩ | ⟨rfl, rfl⟩
    · exact ⟨hc, hd⟩
    · exact ⟨hd, hc⟩

/-- A leaf that stands in the tree is the leaf of an entry that promises the same. -/
theorem entry_of_node {node : Address} {r : NodeRewards} (hs : r.leafBytes node ∈ strings)
    (h : f.Node (r.leaf node)) : ∃ s, f.nodes.get? node = some s ∧ s.Agrees r := by
  rcases node_cases h with ⟨node', s, hm, hs', heq⟩ | ⟨a, b, hs', heq, -, -⟩
  · obtain ⟨rfl, hagree⟩ := NodeRewards.leafBytes_inj (eq_of_hash_eq safe hs (hf hs') heq)
    exact ⟨s, KeyMap.get?_eq_some_iff.2 hm, hagree.symm⟩
  · exact absurd (eq_of_hash_eq safe hs (hf hs') heq)
      (NodeRewards.leafBytes_ne_pairBytes node r a b)

/-- Files with one root: what the first promises to a node, the second does too. -/
theorem entry_of_treeRoot_eq (hg : g.hashed ⊆ strings) (hroot : g.treeRoot = f.treeRoot)
    (hne : f.nodes.entries ≠ []) {node : Address} {r : NodeRewards}
    (hr : g.nodes.get? node = some r) : ∃ s, f.nodes.get? node = some s ∧ s.Agrees r := by
  have hm := KeyMap.get?_eq_some_iff.1 hr
  refine entry_of_node safe hf (hg (leafBytes_mem_hashed hm)) ?_
  refine RewardsTree.forall_level_of_root keccak256 (P := f.Node) ?_ ?_ _
    (RewardsTree.mem_sortLeaves.2 (mem_leaves.2 ⟨node, r, hm, rfl⟩))
  · intro a b hab
    exact children_of_node safe hf (hg (pairBytes_mem_hashed hab))
  · rw [← RewardsTree.ofLeaves, ← treeRoot, hroot]
    exact node_treeRoot hne

end Safe

/-- **Proofs are sound.** Whatever proof leads from an entry of a node to the root of a file, the
file has an entry of that node that promises the same, unless two different strings collide among
those that are hashed for the file's tree, for the entry's leaf and for the proof. -/
theorem entry_of_accepted_proof (f : RewardsFile) (node : Address) (r : NodeRewards)
    (proof : List Hash) (hne : f.nodes.entries ≠ [])
    (h : RewardsTree.verify keccak256 (r.leaf node) proof f.treeRoot = true) :
    (∃ s, f.nodes.get? node = some s ∧ s.Agrees r) ∨
      Collision keccak256 (f.hashed ++ r.leafBytes node ::
        RewardsTree.foldStrings keccak256 (r.leaf node) proof) := by
  rw [or_iff_not_imp_right]
  intro safe
  have hf : f.hashed ⊆ f.hashed ++ r.leafBytes node ::
      RewardsTree.foldStrings keccak256 (r.leaf node) proof := List.subset_append_left _ _
  refine entry_of_node safe hf (by simp) ?_
  refine @RewardsTree.of_fold keccak256 f.Node _ proof ?_ ?_
  · intro a b hab hj
    exact (children_of_node safe hf (by simp [hab]) hj).1
  · rw [RewardsTree.verify, beq_iff_eq] at h
    exact h ▸ node_treeRoot hne

/-- A file that pays two nodes, with the proof of the first. -/
theorem entry_of_accepted_proof_of_two :
    let r : NodeRewards := ⟨0, 3, 0, 7, []⟩
    let s : NodeRewards := ⟨1, 0, 5, 0, []⟩
    let f : RewardsFile := ⟨1, ⟨5, "holesky", 0, 0, 0, 0, 1⟩, .zero, ⟨3, 5, 7⟩,
      ⟨[(.ofNat 10, r), (.ofNat 11, s)], by decide⟩⟩
    f.nodes.entries ≠ [] ∧
      RewardsTree.verify keccak256 (r.leaf (.ofNat 10)) [s.leaf (.ofNat 11)] f.treeRoot = true ∧
      ((∃ q, f.nodes.get? (.ofNat 10) = some q ∧ q.Agrees r) ∨
        Collision keccak256 (f.hashed ++ r.leafBytes (.ofNat 10) ::
          RewardsTree.foldStrings keccak256 (r.leaf (.ofNat 10)) [s.leaf (.ofNat 11)])) := by
  intro r s f
  have hverify : RewardsTree.verify keccak256 (r.leaf (.ofNat 10)) [s.leaf (.ofNat 11)]
      f.treeRoot = true := by
    rw [RewardsTree.verify, beq_iff_eq, treeRoot]
    exact (RewardsTree.root_ofLeaves_pair keccak256 _ _).symm
  have hne : f.nodes.entries ≠ [] := by simp [f]
  exact ⟨hne, hverify, entry_of_accepted_proof f _ r _ hne hverify⟩

/-- **The root binds the payouts.** Two files that are both trusted against one root have entries
for the same nodes and promise each of them the same, unless two different strings collide, or one
has the digest zero, among those that are hashed for the two roots. -/
theorem payouts_of_common_root (f g : RewardsFile) (root : Hash) (hf : f.trust root = .ok ())
    (hg : g.trust root = .ok ()) :
    (f.nodes.keys = g.nodes.keys ∧ ∀ node r s, f.nodes.get? node = some r →
        g.nodes.get? node = some s → r.Agrees s) ∨
      Collision keccak256 (f.hashed ++ g.hashed) ∨
      ∃ s ∈ f.hashed ++ g.hashed, keccak256 s = .zero := by
  rw [or_iff_not_imp_right, not_or]
  rintro ⟨safe, nonzero⟩
  have hroot : f.treeRoot = g.treeRoot :=
    (trust_eq_ok_iff.1 hf).1.trans (trust_eq_ok_iff.1 hg).1.symm
  have hfs : f.hashed ⊆ f.hashed ++ g.hashed := List.subset_append_left _ _
  have hgs : g.hashed ⊆ f.hashed ++ g.hashed := List.subset_append_right _ _
  -- The root of a file with entries is a digest, so it is not the root of one without.
  have hempty : f.nodes.entries = [] ↔ g.nodes.entries = [] := by
    have root_ne : ∀ {f' : RewardsFile}, f'.hashed ⊆ f.hashed ++ g.hashed →
        f'.nodes.entries ≠ [] → f'.treeRoot ≠ .zero := fun hsub hne hz => by
      obtain ⟨s, hs, hd⟩ := hash_of_node (node_treeRoot hne)
      exact nonzero ⟨s, hsub hs, hd.trans hz⟩
    constructor <;> intro hnil <;> by_contra hne
    · exact root_ne hgs hne (hroot ▸ treeRoot_of_nil hnil)
    · exact root_ne hfs hne (hroot ▸ treeRoot_of_nil hnil)
  by_cases hnil : f.nodes.entries = []
  · have hnil' := hempty.1 hnil
    simp [KeyMap.keys, KeyMap.get?, hnil, hnil', KeyMap.find]
  · have hnil' : g.nodes.entries ≠ [] := fun h => hnil (hempty.2 h)
    have there : ∀ {node r}, f.nodes.get? node = some r →
        ∃ s, g.nodes.get? node = some s ∧ s.Agrees r := fun hr =>
      entry_of_treeRoot_eq safe hgs hfs hroot hnil' hr
    have back : ∀ {node r}, g.nodes.get? node = some r →
        ∃ s, f.nodes.get? node = some s ∧ s.Agrees r := fun hr =>
      entry_of_treeRoot_eq safe hfs hgs hroot.symm hnil hr
    refine ⟨KeyMap.keys_eq fun node => ⟨?_, ?_⟩, ?_⟩
    · rintro ⟨r, hr⟩
      exact (there hr).imp fun _ h => h.1
    · rintro ⟨r, hr⟩
      exact (back hr).imp fun _ h => h.1
    · intro node r s hr hs
      obtain ⟨s', hs', hagree⟩ := there hr
      obtain rfl : s = s' := Option.some.inj (hs.symm.trans hs')
      exact hagree.symm

/-- A file that pays one node. -/
def ofEntry (node : Address) (r : NodeRewards) : RewardsFile :=
  ⟨1, ⟨5, "holesky", 0, 0, 0, 0, 1⟩, r.leaf node,
    ⟨r.collateralRpl, r.oracleRpl, r.smoothingPoolEth⟩, ⟨[(node, r)], by simp⟩⟩

theorem trust_ofEntry (node : Address) (r : NodeRewards) :
    (ofEntry node r).trust (r.leaf node) = .ok () := by
  refine trust_eq_ok_iff.2 ⟨?_, rfl⟩
  rw [treeRoot, leaves, ofEntry, RewardsTree.ofLeaves, RewardsTree.sortLeaves]
  simp [RewardsTree.root_climb_singleton]

/-- Two files that split a node's RPL differently have one root. -/
theorem payouts_of_common_root_of_split :
    let r : NodeRewards := ⟨0, 3, 4, 9, []⟩
    let s : NodeRewards := ⟨0, 5, 2, 9, [.zero]⟩
    let f := ofEntry (.ofNat 10) r
    let g := ofEntry (.ofNat 10) s
    let root := r.leaf (.ofNat 10)
    f.trust root = .ok () ∧ g.trust root = .ok () ∧
      ((f.nodes.keys = g.nodes.keys ∧ ∀ node r s, f.nodes.get? node = some r →
          g.nodes.get? node = some s → r.Agrees s) ∨
        Collision keccak256 (f.hashed ++ g.hashed) ∨
        ∃ s ∈ f.hashed ++ g.hashed, keccak256 s = .zero) := by
  intro r s f g root
  have hf : f.trust root = .ok () := trust_ofEntry _ r
  have hleaf : s.leaf (.ofNat 10) = root :=
    congrArg keccak256 (by decide : s.leafBytes (.ofNat 10) = r.leafBytes (.ofNat 10))
  have hg : g.trust root = .ok () := hleaf ▸ trust_ofEntry _ s
  exact ⟨hf, hg, payouts_of_common_root f g root hf hg⟩

end RewardsFile
end PoolKeeper
