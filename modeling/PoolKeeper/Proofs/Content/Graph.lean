/-
The graph over a file: its leaves, its levels, and the sizes that its nodes record.

The levels are made one from another until a single node is left (`raise_levels`), so
what holds of the leaves and is kept from a level to the next holds of the root
(`raise_induction`). This carries the order of the leaves, the number of links and
the bound on all sizes. The sizes that are summed up along the way are those of what
lies below (`totalSize_link`, `fileSize_link`), by induction on the node.
-/
import Mathlib.Algebra.GroupWithZero.Nat
import Mathlib.Logic.Function.Iterate
import PoolKeeper.Proofs.Content.Binding
import PoolKeeper.Proofs.Content.Block

namespace PoolKeeper.Dag

/-! ## What a graph is made of -/

mutual
/-- The node and all nodes below it. -/
def Node.nodes : Node → List Node
  | .leaf chunk => [.leaf chunk]
  | .inner children => .inner children :: nodesOf children

def nodesOf : List Node → List Node
  | [] => []
  | n :: ns => n.nodes ++ nodesOf ns
end

mutual
/-- The chunks of a node's leaves, from left to right. -/
def Node.chunks : Node → List Bytes
  | .leaf chunk => [chunk]
  | .inner children => chunksOf children

def chunksOf : List Node → List Bytes
  | [] => []
  | n :: ns => n.chunks ++ chunksOf ns
end

theorem nodesOf_eq_flatMap (ns : List Node) : nodesOf ns = ns.flatMap Node.nodes := by
  induction ns with
  | nil => rfl
  | cons n ns ih => rw [nodesOf, ih, List.flatMap_cons]

theorem chunksOf_eq_flatMap (ns : List Node) : chunksOf ns = ns.flatMap Node.chunks := by
  induction ns with
  | nil => rfl
  | cons n ns ih => rw [chunksOf, ih, List.flatMap_cons]

mutual
theorem flatten_chunks : (n : Node) → n.chunks.flatten = n.content
  | .leaf chunk => by rw [Node.chunks, Node.content, List.flatten_singleton]
  | .inner children => by rw [Node.chunks, Node.content, flatten_chunksOf children]

theorem flatten_chunksOf : (ns : List Node) → (chunksOf ns).flatten = contentOf ns
  | [] => rfl
  | n :: ns => by
    rw [chunksOf, contentOf, List.flatten_append, flatten_chunks n, flatten_chunksOf ns]
end

theorem nodesOf_leaves (chunks : List Bytes) :
    nodesOf (chunks.map .leaf) = chunks.map .leaf := by
  induction chunks with
  | nil => rfl
  | cons chunk chunks ih =>
    rw [List.map_cons, nodesOf, ih]
    rfl

theorem chunksOf_leaves (chunks : List Bytes) : chunksOf (chunks.map .leaf) = chunks := by
  induction chunks with
  | nil => rfl
  | cons chunk chunks ih =>
    rw [List.map_cons, chunksOf, ih]
    rfl

theorem chunksOf_inner (groups : List (List Node)) :
    chunksOf (groups.map .inner) = chunksOf groups.flatten := by
  induction groups with
  | nil => rfl
  | cons ns groups ih =>
    rw [List.map_cons, chunksOf, ih, Node.chunks, List.flatten_cons, chunksOf_eq_flatMap,
      chunksOf_eq_flatMap, chunksOf_eq_flatMap, List.flatMap_append]

/-! ## Levels -/

/-- The nodes above a level. -/
def parents (level : List Node) : List Node := (pieces maxLinks level).map .inner

theorem parents_ne_nil {level : List Node} (h : level ≠ []) : parents level ≠ [] := by
  rw [parents, pieces, dif_pos ⟨by decide, h⟩]
  exact List.cons_ne_nil _ _

/-- **A single node is left of every level**, and only then no parents are made. -/
theorem raise_levels {level : List Node} (h : level ≠ []) :
    ∃ k, parents^[k] level = [raise level] ∧ ∀ j < k, 1 < (parents^[j] level).length := by
  fun_induction raise level with
  | case1 => exact absurd rfl h
  | case2 n => exact ⟨0, rfl, fun j hj => absurd hj (Nat.not_lt_zero j)⟩
  | case3 a b rest ih =>
    obtain ⟨k, hroot, hmore⟩ := ih (parents_ne_nil h)
    refine ⟨k + 1, hroot, fun j hj => ?_⟩
    cases j with
    | zero => simp
    | succ j => exact hmore j (Nat.lt_of_succ_lt_succ hj)

/-- What is kept from a level to the next holds of the root. -/
theorem raise_induction {P : List Node → Prop}
    (hstep : ∀ level, 1 < level.length → P level → P (parents level)) {level : List Node}
    (hne : level ≠ []) (h : P level) : P [raise level] := by
  obtain ⟨k, hroot, hmore⟩ := raise_levels hne
  have hlevels : ∀ j ≤ k, P (parents^[j] level) := by
    intro j
    induction j with
    | zero => exact fun _ => h
    | succ j ih =>
      intro hj
      rw [Function.iterate_succ_apply']
      exact hstep _ (hmore j hj) (ih (Nat.le_of_succ_le hj))
  exact hroot ▸ hlevels k (Nat.le_refl k)

theorem leavesOf_ne_nil (data : Bytes) : leavesOf data ≠ [] := by
  rw [leavesOf]
  split
  · exact List.cons_ne_nil _ _
  · rename_i hempty
    rw [pieces, dif_pos ⟨by decide, fun hnil => hempty (List.isEmpty_iff.2 hnil)⟩]
    exact List.cons_ne_nil _ _

theorem chunksOf_raise {level : List Node} (h : level ≠ []) :
    (raise level).chunks = chunksOf level := by
  have hroot : chunksOf [raise level] = chunksOf level := by
    refine raise_induction (P := fun l => chunksOf l = chunksOf level) (fun l _ hl => ?_) h rfl
    rw [parents, chunksOf_inner, flatten_pieces (by decide), hl]
  rwa [chunksOf, chunksOf, List.append_nil] at hroot

/-- The leaves are the pieces of the file, or an empty one. -/
theorem chunks_ofBytes (data : Bytes) :
    (ofBytes data).chunks = if data.isEmpty then [[]] else pieces chunkSize data := by
  rw [ofBytes, chunksOf_raise (leavesOf_ne_nil data), leavesOf]
  split
  · rfl
  · exact chunksOf_leaves _

/-- No node has more links than it may have, and none is without any. -/
def Linked (ns : List Node) : Prop :=
  ∀ children, Node.inner children ∈ nodesOf ns → children ≠ [] ∧ children.length ≤ maxLinks

theorem Linked.parents {level : List Node} (h : Linked level) : Linked (parents level) := by
  intro children hmem
  rw [nodesOf_eq_flatMap] at hmem
  obtain ⟨n, hn, hmem⟩ := List.mem_flatMap.1 hmem
  obtain ⟨group, hgroup, rfl⟩ := List.mem_map.1 hn
  rcases List.mem_cons.1 hmem with heq | hbelow
  · cases heq
    exact ⟨ne_nil_of_mem_pieces hgroup, length_le_of_mem_pieces hgroup⟩
  · -- what lies below a parent was there before
    refine h children ?_
    rw [← flatten_pieces (n := maxLinks) (by decide) level, nodesOf_eq_flatMap]
    rw [nodesOf_eq_flatMap] at hbelow
    obtain ⟨m, hm, hmem⟩ := List.mem_flatMap.1 hbelow
    exact List.mem_flatMap.2 ⟨m, List.mem_flatten.2 ⟨group, hgroup, hm⟩, hmem⟩

theorem linked_leavesOf (data : Bytes) : Linked (leavesOf data) := by
  intro children hmem
  rw [leavesOf] at hmem
  split at hmem
  · rcases List.mem_singleton.1 hmem with ⟨⟩
  · rw [nodesOf_leaves] at hmem
    obtain ⟨_, -, hleaf⟩ := List.mem_map.1 hmem
    cases hleaf

theorem linked_ofBytes (data : Bytes) : Linked [ofBytes data] :=
  raise_induction (fun _ _ h => h.parents) (leavesOf_ne_nil data) (linked_leavesOf data)

/-! ## Sizes -/

section Sizes
variable (digest : Bytes → Hash)

/-- The bytes that a node is stored as. -/
def Node.encoded : Node → Bytes
  | .leaf chunk => chunk
  | .inner children => nodeBytes (linksOf digest children)

/-- The bytes that nodes and all that lies below them are stored as, in total. -/
def weightOf (ns : List Node) : Nat := ((nodesOf ns).map fun n => (n.encoded digest).length).sum

/-- The size of the encoded node and of everything below it. -/
def Node.weight (n : Node) : Nat := (n.nodes.map fun m => (m.encoded digest).length).sum

theorem weightOf_cons (n : Node) (ns : List Node) :
    weightOf digest (n :: ns) = n.weight digest + weightOf digest ns := by
  rw [weightOf, nodesOf, List.map_append, List.sum_append]
  rfl

theorem weightOf_append (ms ns : List Node) :
    weightOf digest (ms ++ ns) = weightOf digest ms + weightOf digest ns := by
  induction ms with
  | nil => exact (Nat.zero_add _).symm
  | cons n ms ih => rw [List.cons_append, weightOf_cons, weightOf_cons, ih, Nat.add_assoc]

theorem weight_inner (children : List Node) :
    (Node.inner children).weight digest =
      ((Node.inner children).encoded digest).length + weightOf digest children := by
  rw [Node.weight, Node.nodes, List.map_cons, List.sum_cons]
  rfl

theorem linksOf_eq_map (ns : List Node) : linksOf digest ns = ns.map (Node.link digest) := by
  induction ns with
  | nil => rfl
  | cons n ns ih => rw [linksOf, ih, List.map_cons]

theorem sumOf_eq_sum (size : Link → Nat) (links : List Link) :
    sumOf size links = (links.map size).sum := by
  rw [List.sum, List.foldr_map]
  rfl

mutual
/-- **The total size of a link is the size of all that it leads to.** -/
theorem totalSize_link : (n : Node) → (n.link digest).totalSize = n.weight digest
  | .leaf chunk => by
    rw [Node.weight, Node.nodes, List.map_singleton, List.sum_singleton]
    rfl
  | .inner children => by
    rw [weight_inner, ← totalSize_linksOf children]
    rfl

theorem totalSize_linksOf :
    (ns : List Node) → sumOf Link.totalSize (linksOf digest ns) = weightOf digest ns
  | [] => rfl
  | n :: ns => by
    rw [weightOf_cons, ← totalSize_link n, ← totalSize_linksOf ns]
    rfl
end

mutual
/-- **The file size of a link is the number of bytes below it.** -/
theorem fileSize_link : (n : Node) → (n.link digest).fileSize = n.content.length
  | .leaf _ => rfl
  | .inner children => fileSize_linksOf children

theorem fileSize_linksOf :
    (ns : List Node) → sumOf Link.fileSize (linksOf digest ns) = (contentOf ns).length
  | [] => rfl
  | n :: ns => by
    rw [contentOf, List.length_append, ← fileSize_link n, ← fileSize_linksOf ns]
    rfl
end

mutual
/-- A file is not larger than the nodes that it is stored in. -/
theorem length_content_le : (n : Node) → n.content.length ≤ n.weight digest
  | .leaf chunk => by
    rw [Node.weight, Node.nodes, List.map_singleton, List.sum_singleton]
    exact Nat.le_refl chunk.length
  | .inner children => by
    have hchildren := length_contentOf_le children
    rw [weight_inner, Node.content]
    omega

theorem length_contentOf_le : (ns : List Node) → (contentOf ns).length ≤ weightOf digest ns
  | [] => Nat.zero_le _
  | n :: ns => by
    have hn := length_content_le n
    have hns := length_contentOf_le ns
    rw [contentOf, weightOf_cons, List.length_append]
    omega
end

mutual
theorem weight_le_of_mem_nodes {m : Node} :
    (n : Node) → m ∈ n.nodes → m.weight digest ≤ n.weight digest
  | .leaf _, h => Nat.le_of_eq (congrArg (Node.weight digest) (List.mem_singleton.1 h))
  | .inner children, h => by
    rcases List.mem_cons.1 h with rfl | h
    · exact Nat.le_refl _
    · have hm := weight_le_of_mem_nodesOf children h
      rw [weight_inner digest children]
      omega

theorem weight_le_of_mem_nodesOf {m : Node} :
    (ns : List Node) → m ∈ nodesOf ns → m.weight digest ≤ weightOf digest ns
  | [], h => nomatch h
  | n :: ns, h => by
    rw [weightOf_cons]
    rcases List.mem_append.1 h with h | h
    · exact Nat.le_add_right_of_le (weight_le_of_mem_nodes n h)
    · exact Nat.le_add_left_of_le (weight_le_of_mem_nodesOf ns h)
end

theorem mem_nodes_self (n : Node) : n ∈ n.nodes := by
  cases n with
  | leaf chunk => exact List.mem_singleton.2 rfl
  | inner children => exact List.mem_cons_self

theorem weight_le_of_mem {n : Node} {ns : List Node} (h : n ∈ ns) :
    n.weight digest ≤ weightOf digest ns :=
  weight_le_of_mem_nodesOf digest ns
    (nodesOf_eq_flatMap ns ▸ List.mem_flatMap.2 ⟨n, h, mem_nodes_self n⟩)

/-! ### What an inner node records -/

/-- What is to be known of the nodes below an inner node: for each child its identifier and the size
of the encoded child and of everything below it, the bytes of the file below the child, and the sum
of these. -/
def blockOf (children : List Node) : Block where
  links := children.map fun c => ((c.link digest).cid, c.weight digest)
  fileSize := (children.map fun c => c.content.length).sum
  blockSizes := children.map fun c => c.content.length

/-- **An inner node records what lies below it.** -/
theorem bytes_blockOf (children : List Node) :
    (blockOf digest children).bytes = (Node.inner children).encoded digest := by
  have hsum : (linksOf digest children).map Link.fileSize =
      children.map fun c => c.content.length := by
    rw [linksOf_eq_map, List.map_map]
    exact List.map_congr_left fun c _ => fileSize_link digest c
  have hmetadata : Message.bytes (blockOf digest children).metadataFields =
      fileMetadata (linksOf digest children) := by
    rw [fileMetadata, sumOf_eq_sum, hsum]
    simp [Message.bytes, Block.metadataFields, blockOf, Message.Field.bytes, linksOf_eq_map,
      List.flatMap_map, fileSize_link]
  have hlink : ∀ c : Node,
      (Block.linkFields ((c.link digest).cid, c.weight digest)).flatMap Message.Field.bytes =
        linkBytes [] (c.link digest) := by
    intro c
    rw [linkBytes, totalSize_link]
    simp [Block.linkFields, Message.Field.bytes]
  rw [Block.bytes, Block.fields, hmetadata, Node.encoded, nodeBytes, linksOf_eq_map]
  simp [Message.bytes, blockOf, Message.Field.bytes, List.flatMap_map, hlink]

variable {digest}

theorem fits_blockOf {children : List Node} (hweight : weightOf digest children < 2 ^ 64)
    (hlength : children.length ≤ maxLinks) : (blockOf digest children).Fits := by
  have hcontent : ∀ c ∈ children, c.content.length < 2 ^ 64 := fun c hc =>
    Nat.lt_of_le_of_lt (Nat.le_trans (length_content_le digest c) (weight_le_of_mem digest hc))
      hweight
  have hsum : (children.map fun c => c.content.length).sum = (contentOf children).length := by
    rw [contentOf_eq_flatMap, List.length_flatMap]
  refine ⟨?_, ?_, ?_, ?_⟩
  · simp only [blockOf, List.forall_mem_map]
    exact fun c hc => Nat.lt_of_le_of_lt (weight_le_of_mem digest hc) hweight
  · rw [blockOf, hsum]
    exact Nat.lt_of_le_of_lt (length_contentOf_le digest children) hweight
  · simp only [blockOf, List.forall_mem_map]
    exact hcontent
  · rwa [blockOf, List.length_map]

/-! ### All sizes have 64 bits -/

/-- A node takes at most 91 bytes for a link, and 33 more. -/
theorem length_encoded_inner_le {children : List Node} (hweight : weightOf digest children < 2 ^ 64)
    (hlength : children.length ≤ maxLinks) :
    ((Node.inner children).encoded digest).length ≤ 91 * children.length + 33 := by
  have hbytes := Block.length_bytes_le (fits_blockOf hweight hlength)
  rw [bytes_blockOf] at hbytes
  simp only [blockOf, List.length_map] at hbytes
  omega

theorem weightOf_inner_le (groups : List (List Node))
    (hlength : ∀ group ∈ groups, group.length ≤ maxLinks)
    (hweight : weightOf digest groups.flatten < 2 ^ 64) :
    weightOf digest (groups.map .inner) ≤
      weightOf digest groups.flatten + (91 * groups.flatten.length + 33 * groups.length) := by
  induction groups with
  | nil => simp
  | cons group groups ih =>
    obtain ⟨hfirst, hrest⟩ := List.forall_mem_cons.1 hlength
    rw [List.flatten_cons, weightOf_append] at hweight ⊢
    have hgroup : ((Node.inner group).encoded digest).length ≤ 91 * group.length + 33 :=
      length_encoded_inner_le (by omega) hfirst
    have hgroups := ih hrest (by omega)
    rw [List.map_cons, weightOf_cons, weight_inner, List.length_append, List.length_cons]
    omega

/-- There is room for what the nodes above a level take, as every level has at most half as many
nodes, rounded up. -/
def Roomy (digest : Bytes → Hash) (level : List Node) : Prop :=
  weightOf digest level + 400 * level.length < 2 ^ 64

theorem Roomy.parents {level : List Node} (hmore : 1 < level.length) (h : Roomy digest level) :
    Roomy digest (parents level) := by
  have hflatten := flatten_pieces (n := maxLinks) (by decide) level
  have hcount := length_pieces_le (n := maxLinks) (by decide) level
  rw [Roomy] at h
  have hweight := weightOf_inner_le (pieces maxLinks level)
    (fun _ hgroup => length_le_of_mem_pieces hgroup)
    (hflatten.symm ▸ Nat.lt_of_le_of_lt (Nat.le_add_right _ _) h)
  rw [hflatten] at hweight
  rw [Roomy, Dag.parents, List.length_map]
  omega

theorem roomy_leavesOf {data : Bytes} (h : data.length < 2 ^ 63) :
    Roomy digest (leavesOf data) := by
  have hchunks : ∀ chunks : List Bytes,
      weightOf digest (chunks.map .leaf) = chunks.flatten.length := by
    intro chunks
    rw [weightOf, nodesOf_leaves, List.map_map, List.length_flatten]
    rfl
  rw [Roomy, leavesOf]
  split
  · have hleaf := hchunks [[]]
    rw [List.map_singleton] at hleaf
    rw [hleaf]
    decide
  · have hcount := mul_length_pieces_le chunkSize data
    rw [hchunks, flatten_pieces (by decide), List.length_map]
    rw [chunkSize] at hcount ⊢
    omega

/-- **All sizes in the graph over a file have 64 bits.** -/
theorem weight_ofBytes_lt {data : Bytes} (h : data.length < 2 ^ 63) :
    (ofBytes data).weight digest < 2 ^ 64 := by
  have hroot : Roomy digest [ofBytes data] :=
    raise_induction (fun _ hmore h => h.parents hmore) (leavesOf_ne_nil data) (roomy_leavesOf h)
  rw [Roomy, weightOf_cons] at hroot
  omega

/-- An inner node of the graph is read back as what it is to record. -/
theorem read?_encoded {data : Bytes} (h : data.length < 2 ^ 63) {children : List Node}
    (hmem : .inner children ∈ (ofBytes data).nodes) :
    Block.read? ((Node.inner children).encoded digest) = some (blockOf digest children) := by
  have hmem' : .inner children ∈ nodesOf [ofBytes data] := by
    rw [nodesOf]
    exact List.mem_append_left _ hmem
  have hweight := Nat.lt_of_le_of_lt (weight_le_of_mem_nodes digest _ hmem) (weight_ofBytes_lt h)
  rw [weight_inner] at hweight
  rw [← bytes_blockOf]
  exact Block.read?_bytes (fits_blockOf (by omega) (linked_ofBytes data children hmem').2)

theorem codec_link_eq_raw_iff {n : Node} :
    (n.link digest).cid.codec = .raw ↔ ∃ chunk, n = .leaf chunk := by
  cases n with
  | leaf chunk => exact ⟨fun _ => ⟨chunk, rfl⟩, fun _ => rfl⟩
  | inner children => exact ⟨nofun, fun ⟨_, h⟩ => nomatch h⟩

/-! ## The graph over a file -/

variable (digest)

/-- A root of the graph over a file. -/
structure IsGraphOver (data : Bytes) (root : Node) : Prop where
  /-- The root is what is left of the leaves when parents are made until there is one node. -/
  levels : ∃ k, parents^[k] (leavesOf data) = [root] ∧
    ∀ j < k, 1 < (parents^[j] (leavesOf data)).length
  /-- The leaves are the file, from left to right. -/
  chunks : root.chunks.flatten = data
  chunk_le : ∀ chunk ∈ root.chunks, chunk.length ≤ 262144
  /-- Only the last leaf may be shorter than the others. -/
  chunk_eq : ∀ chunk ∈ root.chunks.dropLast, chunk.length = 262144
  links : ∀ children, .inner children ∈ root.nodes → children ≠ [] ∧ children.length ≤ 174
  /-- The bytes of an inner node are those of what it is to record. -/
  records : ∀ children, .inner children ∈ root.nodes →
    (blockOf digest children).bytes = (Node.inner children).encoded digest
  /-- A reader has that back, as long as the sizes in it have 64 bits. -/
  readable : data.length < 2 ^ 63 → ∀ children, .inner children ∈ root.nodes →
    Block.read? ((Node.inner children).encoded digest) = some (blockOf digest children)
  fileSize : (root.link digest).fileSize = data.length
  totalSize : (root.link digest).totalSize = root.weight digest
  raw_iff : (root.link digest).cid.codec = .raw ↔ data.length ≤ 262144

/-- **The graph over a file** has the file in its leaves, all of 262144 bytes but the last, under
nodes of at most 174 links that record what lies below them, up to a single root. -/
theorem graph_over_file (data : Bytes) : IsGraphOver digest data (ofBytes data) := by
  have hflatten : (ofBytes data).chunks.flatten = data := by
    rw [flatten_chunks, content_ofBytes]
  have hchunk : ∀ chunk ∈ (ofBytes data).chunks, chunk.length ≤ 262144 := by
    rw [chunks_ofBytes]
    split
    · simp
    · exact fun chunk hmem => length_le_of_mem_pieces hmem
  refine {
    levels := raise_levels (leavesOf_ne_nil data)
    chunks := hflatten
    chunk_le := hchunk
    chunk_eq := ?_
    links := fun children hmem => linked_ofBytes data children (List.mem_append_left _ hmem)
    records := fun children _ => bytes_blockOf digest children
    readable := fun hlength children hmem => read?_encoded hlength hmem
    fileSize := by rw [fileSize_link, content_ofBytes]
    totalSize := totalSize_link digest _
    raw_iff := ?_ }
  · rw [chunks_ofBytes]
    split
    · exact nofun
    · exact fun chunk hmem => length_of_mem_dropLast_pieces hmem
  · rw [codec_link_eq_raw_iff]
    constructor
    · rintro ⟨chunk, hleaf⟩
      rw [hleaf, Node.chunks] at hflatten hchunk
      rw [← hflatten, List.flatten_singleton]
      exact hchunk chunk List.mem_cons_self
    · exact fun hlength => ⟨data, ofBytes_of_length_le hlength⟩

/-- One byte more than a leaf holds: the root is a node, and is read back. -/
theorem node_over_two_leaves : ∃ children,
    ofBytes (List.replicate 262145 7) = .inner children ∧
    Block.read? ((Node.inner children).encoded sha256) = some (blockOf sha256 children) := by
  have hgraph := graph_over_file sha256 (List.replicate 262145 7)
  have hlength : (List.replicate 262145 (7 : UInt8)).length = 262145 := List.length_replicate
  cases hroot : ofBytes (List.replicate 262145 7) with
  | leaf chunk =>
    have hraw := hgraph.raw_iff.1 (codec_link_eq_raw_iff.2 ⟨chunk, hroot⟩)
    omega
  | inner children =>
    refine ⟨children, rfl, hgraph.readable (by omega) children ?_⟩
    rw [hroot]
    exact mem_nodes_self _

end Sizes
end PoolKeeper.Dag
