/-
When parts make a snapshot, and what is found in it.

Parts make a snapshot exactly when they are `Coherent`: no node, no minipool and
no validator key is listed twice, and every minipool belongs to a listed node.
Keys that are not known yet do not count. The check and the index are made in
one go through the lists; `indexNodes_spec` and `indexMinipools_spec` say of it
both that it ends as it should and where the index leads then, by induction on
what is still to come of a list, the part before it being coherent and indexed.

So a look-up in a snapshot finds what a search through its lists would
(`node?_eq`, `minipool?_eq`, `minipoolsOf_eq`), and its minipools, taken node by
node, are all of them, each once (`flatMap_minipoolsOf_perm`). `assemble_spec`
says all this of the parts.
-/
import Mathlib.Data.List.Nodup
import PoolKeeper.Proofs.Positions
import PoolKeeper.State.Build

namespace PoolKeeper

/-- Items taken key by key are all the items, each once. -/
theorem flatMap_filter_perm {α κ : Type} [DecidableEq κ] {keys : List κ} {xs : List α}
    (key : α → κ) (hnodup : keys.Nodup) (hkeys : ∀ x ∈ xs, key x ∈ keys) :
    (keys.flatMap fun k => xs.filter (key · = k)).Perm xs := by
  induction keys generalizing xs with
  | nil =>
    have hnil : xs = [] := List.eq_nil_iff_forall_not_mem.2 fun x hx => nomatch hkeys x hx
    rw [hnil]
    exact .refl _
  | cons k keys ih =>
    obtain ⟨hk, hnodup⟩ := List.nodup_cons.1 hnodup
    -- what does not have the first key is shared out among the others
    have hrest : ∀ x ∈ xs.filter (key · ≠ k), key x ∈ keys := by
      intro x hx
      obtain ⟨hx, hne⟩ := List.mem_filter.1 hx
      exact (List.mem_cons.1 (hkeys x hx)).resolve_left (by simpa using hne)
    have hsame : ∀ k' ∈ keys, (xs.filter (key · ≠ k)).filter (key · = k') =
        xs.filter (key · = k') := by
      intro k' hk'
      rw [List.filter_filter]
      refine List.filter_congr fun x _ => ?_
      by_cases hx : key x = k'
      · have hne : key x ≠ k := fun h => hk (h ▸ hx ▸ hk')
        simp [hx, hx ▸ hne]
      · simp [hx]
    have hothers := ih hnodup hrest
    rw [List.flatMap_congr hsame] at hothers
    have hsplit := List.filter_append_perm (fun x => decide (key x = k)) xs
    rw [List.flatMap_cons]
    exact (hothers.append_left _).trans (by simpa using hsplit)

/-- When no two items share a key, the item found by a key is the one that has it. -/
theorem find?_eq_some_iff_of_nodup {α κ : Type} [DecidableEq κ] {xs : List α} {key : α → κ}
    (hnodup : (xs.map key).Nodup) {k : κ} {x : α} :
    xs.find? (key · = k) = some x ↔ x ∈ xs ∧ key x = k := by
  constructor
  · intro h
    exact ⟨List.mem_of_find?_eq_some h, by simpa using List.find?_some h⟩
  · rintro ⟨hx, rfl⟩
    obtain ⟨y, hy⟩ := Option.isSome_iff_exists.1
      ((List.find?_isSome (p := fun y => decide (key y = key x))).2 ⟨x, hx, decide_eq_true rfl⟩)
    have hkey : key y = key x := by simpa using List.find?_some hy
    rw [hy, List.inj_on_of_nodup_map hnodup (List.mem_of_find?_eq_some hy) hx hkey]

namespace SnapshotParts

/-- The keys of minipools, as far as they are known. -/
def keysOf (ms : List MinipoolDetails) : List Pubkey :=
  (ms.filter MinipoolDetails.hasPubkey).map MinipoolDetails.pubkey

/-- Nodes and minipools that agree with each other. -/
structure Coherent (nodes : List NodeDetails) (minipools : List MinipoolDetails) : Prop where
  nodes_nodup : (nodes.map NodeDetails.address).Nodup
  minipools_nodup : (minipools.map MinipoolDetails.address).Nodup
  node_listed : ∀ m ∈ minipools, m.nodeAddress ∈ nodes.map NodeDetails.address
  keys_nodup : (keysOf minipools).Nodup

instance (nodes : List NodeDetails) (ms : List MinipoolDetails) : Decidable (Coherent nodes ms) :=
  decidable_of_iff ((nodes.map NodeDetails.address).Nodup ∧
      (ms.map MinipoolDetails.address).Nodup ∧
      (∀ m ∈ ms, m.nodeAddress ∈ nodes.map NodeDetails.address) ∧ (keysOf ms).Nodup)
    ⟨fun h => ⟨h.1, h.2.1, h.2.2.1, h.2.2.2⟩, fun h => ⟨h.1, h.2, h.3, h.4⟩⟩

/-- Some of the minipools agree with each other when all do. -/
theorem Coherent.sublist {nodes : List NodeDetails} {ms ms' : List MinipoolDetails}
    (h : Coherent nodes ms) (hsub : ms'.Sublist ms) : Coherent nodes ms' where
  nodes_nodup := h.nodes_nodup
  minipools_nodup := h.minipools_nodup.sublist (hsub.map _)
  node_listed m hm := h.node_listed m (hsub.subset hm)
  keys_nodup := h.keys_nodup.sublist ((hsub.filter _).map _)

theorem keysOf_append (ms ms' : List MinipoolDetails) :
    keysOf (ms ++ ms') = keysOf ms ++ keysOf ms' := by
  rw [keysOf, List.filter_append, List.map_append, keysOf, keysOf]

theorem keysOf_concat_of_hasPubkey {m : MinipoolDetails} (h : m.hasPubkey = true)
    (ms : List MinipoolDetails) : keysOf (ms ++ [m]) = keysOf ms ++ [m.pubkey] := by
  rw [keysOf_append, keysOf, keysOf, List.filter_cons_of_pos h, List.filter_nil,
    List.map_singleton]

theorem keysOf_concat_of_not_hasPubkey {m : MinipoolDetails} (h : ¬ m.hasPubkey = true)
    (ms : List MinipoolDetails) : keysOf (ms ++ [m]) = keysOf ms := by
  rw [keysOf_append, keysOf, keysOf, List.filter_cons_of_neg h, List.filter_nil, List.map_nil,
    List.append_nil]

theorem nodup_concat_iff {α : Type} {xs : List α} {x : α} :
    (xs ++ [x]).Nodup ↔ x ∉ xs ∧ xs.Nodup := by
  rw [← List.concat_eq_append, List.nodup_concat]

/-- A minipool fits to those before it when it is not one of them, its node is listed, and its
key, if it is known, is not one of theirs. -/
theorem coherent_concat_iff {nodes : List NodeDetails} {ms : List MinipoolDetails}
    {m : MinipoolDetails} (h : Coherent nodes ms) :
    Coherent nodes (ms ++ [m]) ↔ m.address ∉ ms.map MinipoolDetails.address ∧
      m.nodeAddress ∈ nodes.map NodeDetails.address ∧
      (m.hasPubkey = true → m.pubkey ∉ keysOf ms) := by
  constructor
  · rintro ⟨-, hminipools, hlisted, hkeys⟩
    rw [List.map_append, List.map_singleton, nodup_concat_iff] at hminipools
    refine ⟨hminipools.1, hlisted m (by simp), fun hkey => ?_⟩
    rw [keysOf_concat_of_hasPubkey hkey, nodup_concat_iff] at hkeys
    exact hkeys.1
  · rintro ⟨haddress, hnode, hkey⟩
    refine ⟨h.nodes_nodup, ?_, ?_, ?_⟩
    · rw [List.map_append, List.map_singleton, nodup_concat_iff]
      exact ⟨haddress, h.minipools_nodup⟩
    · intro m' hm'
      rcases List.mem_append.1 hm' with hm' | hm'
      · exact h.node_listed m' hm'
      · rwa [List.mem_singleton.1 hm']
    · by_cases hknown : m.hasPubkey = true
      · rw [keysOf_concat_of_hasPubkey hknown, nodup_concat_iff]
        exact ⟨hkey hknown, h.keys_nodup⟩
      · rw [keysOf_concat_of_not_hasPubkey hknown]
        exact h.keys_nodup

/-! ## Indexing -/

/-- Nodes are indexed to the end when none is listed twice, those before them being indexed. -/
theorem indexNodes_spec (ns : List NodeDetails) {known : KeyMap 20 Nat}
    {before : List NodeDetails} (h : Locates known NodeDetails.address before)
    (hbefore : (before.map NodeDetails.address).Nodup) :
    (((before ++ ns).map NodeDetails.address).Nodup →
      ∃ nodes, indexNodes known before.length ns = .ok nodes ∧
        Locates nodes NodeDetails.address (before ++ ns)) ∧
    (¬ ((before ++ ns).map NodeDetails.address).Nodup →
      ∃ fault, indexNodes known before.length ns = .error fault) := by
  induction ns generalizing known before with
  | nil =>
    rw [List.append_nil]
    exact ⟨fun _ => ⟨known, rfl, h⟩, fun hnot => absurd hbefore hnot⟩
  | cons n ns ih =>
    have hconcat : ((before ++ [n]).map NodeDetails.address).Nodup ↔
        n.address ∉ before.map NodeDetails.address := by
      rw [List.map_append, List.map_singleton, nodup_concat_iff, and_iff_left hbefore]
    rw [indexNodes, List.append_cons]
    by_cases hknown : known.contains n.address = true
    · rw [if_pos hknown]
      refine ⟨fun hnodup => ?_, fun _ => ⟨_, rfl⟩⟩
      rw [List.map_append] at hnodup
      exact absurd ((h.contains_iff _).1 hknown) (hconcat.1 hnodup.of_append_left)
    · have hfresh : n.address ∉ before.map NodeDetails.address := fun hmem =>
        hknown ((h.contains_iff _).2 hmem)
      have hrest := ih (h.concat hfresh) (hconcat.2 hfresh)
      rw [List.length_append, List.length_singleton] at hrest
      rw [if_neg hknown]
      exact hrest

/-- The minipools of a list are indexed, and their keys are known. -/
structure Indexed (i : Index) (keys : KeyMap 48 Unit) (ms : List MinipoolDetails) : Prop where
  minipools : Locates i.minipools MinipoolDetails.address ms
  minipoolsOf : Groups i.minipoolsOf MinipoolDetails.nodeAddress ms
  keys : ∀ k, keys.contains k = true ↔ k ∈ keysOf ms

theorem Indexed.nil (nodes : KeyMap 20 Nat) : Indexed { Index.empty with nodes } .empty [] where
  minipools := .empty
  minipoolsOf := .empty
  keys k := by simp [KeyMap.contains, KeyMap.get?_empty, keysOf]

theorem Indexed.concat {i : Index} {keys : KeyMap 48 Unit} {ms : List MinipoolDetails}
    {m : MinipoolDetails} (h : Indexed i keys ms)
    (hfresh : m.address ∉ ms.map MinipoolDetails.address) :
    Indexed (i.addMinipool m ms.length) (if m.hasPubkey then keys.insert m.pubkey () else keys)
      (ms ++ [m]) where
  minipools := h.minipools.concat hfresh
  minipoolsOf := h.minipoolsOf.concat m
  keys k := by
    by_cases hknown : m.hasPubkey = true
    · rw [if_pos hknown, keysOf_concat_of_hasPubkey hknown, List.mem_append, List.mem_singleton,
        ← h.keys]
      by_cases hk : k = m.pubkey
      · simp [KeyMap.contains, hk]
      · simp [KeyMap.contains, KeyMap.get?_insert_other _ hk, hk]
    · rw [if_neg hknown, keysOf_concat_of_not_hasPubkey hknown]
      exact h.keys k

/-- Minipools are indexed to the end when they agree with each other and with the nodes, those
before them being indexed. -/
theorem indexMinipools_spec (ms : List MinipoolDetails) {nodes : List NodeDetails} {i : Index}
    {keys : KeyMap 48 Unit} {before : List MinipoolDetails}
    (hnodes : Locates i.nodes NodeDetails.address nodes) (h : Indexed i keys before)
    (hbefore : Coherent nodes before) :
    (Coherent nodes (before ++ ms) →
      ∃ i' keys', indexMinipools i keys before.length ms = .ok i' ∧
        Locates i'.nodes NodeDetails.address nodes ∧ Indexed i' keys' (before ++ ms)) ∧
    (¬ Coherent nodes (before ++ ms) →
      ∃ fault, indexMinipools i keys before.length ms = .error fault) := by
  induction ms generalizing i keys before with
  | nil =>
    rw [List.append_nil]
    exact ⟨fun _ => ⟨i, keys, rfl, hnodes, h⟩, fun hnot => absurd hbefore hnot⟩
  | cons m ms ih =>
    have hconcat := coherent_concat_iff (m := m) hbefore
    -- what is wrong with a minipool is wrong with all lists that go on from it
    have hfault : ¬ Coherent nodes (before ++ [m]) → ¬ Coherent nodes (before ++ m :: ms) :=
      fun hnot hcoherent => hnot <| hcoherent.sublist <| by
        rw [List.append_cons before m ms]
        exact List.sublist_append_left _ ms
    rw [indexMinipools]
    by_cases haddress : i.minipools.contains m.address = true
    · rw [if_pos haddress]
      have hnot := hfault fun hc => (hconcat.1 hc).1 ((h.minipools.contains_iff _).1 haddress)
      exact ⟨fun hcoherent => absurd hcoherent hnot, fun _ => ⟨_, rfl⟩⟩
    rw [if_neg haddress]
    by_cases hnode : i.nodes.contains m.nodeAddress = false
    · rw [if_pos hnode]
      have hnot := hfault fun hc => by
        have hlisted := (hnodes.contains_iff _).2 (hconcat.1 hc).2.1
        rw [hnode] at hlisted
        cases hlisted
      exact ⟨fun hcoherent => absurd hcoherent hnot, fun _ => ⟨_, rfl⟩⟩
    rw [if_neg hnode]
    by_cases hkey : m.hasPubkey = true ∧ keys.contains m.pubkey = true
    · rw [if_pos hkey]
      have hnot := hfault fun hc => (hconcat.1 hc).2.2 hkey.1 ((h.keys _).1 hkey.2)
      exact ⟨fun hcoherent => absurd hcoherent hnot, fun _ => ⟨_, rfl⟩⟩
    rw [if_neg hkey]
    have hfresh : m.address ∉ before.map MinipoolDetails.address := fun hmem =>
      haddress ((h.minipools.contains_iff _).2 hmem)
    have hlisted : m.nodeAddress ∈ nodes.map NodeDetails.address :=
      (hnodes.contains_iff _).1 (by simpa using hnode)
    have hnext : Coherent nodes (before ++ [m]) := hconcat.2
      ⟨hfresh, hlisted, fun hknown hmem => hkey ⟨hknown, (h.keys _).2 hmem⟩⟩
    have hrest := ih (i := i.addMinipool m before.length) hnodes (h.concat hfresh) hnext
    rw [List.length_append, List.length_singleton, ← List.append_cons] at hrest
    exact hrest

/-- The index leads to where nodes and minipools stand. -/
structure Leads (i : Index) (p : SnapshotParts) : Prop where
  nodes : Locates i.nodes NodeDetails.address p.nodes
  minipools : Locates i.minipools MinipoolDetails.address p.minipools
  minipoolsOf : Groups i.minipoolsOf MinipoolDetails.nodeAddress p.minipools

/-- **Parts are indexed when they agree with each other**, and only then. -/
theorem index_spec (p : SnapshotParts) :
    (Coherent p.nodes p.minipools → ∃ i, p.index = .ok i ∧ Leads i p) ∧
    (¬ Coherent p.nodes p.minipools → ∃ fault, p.index = .error fault) := by
  obtain ⟨hok, herror⟩ := indexNodes_spec p.nodes .empty .nil
  rw [List.nil_append] at hok herror
  by_cases hnodup : (p.nodes.map NodeDetails.address).Nodup
  · obtain ⟨nodes, hindex, hnodes⟩ := hok hnodup
    have hindex' : p.index = indexMinipools { Index.empty with nodes } .empty 0 p.minipools := by
      rw [SnapshotParts.index]
      exact congrArg (· >>= _) hindex
    obtain ⟨hok, herror⟩ := indexMinipools_spec p.minipools hnodes (.nil nodes)
      ⟨hnodup, .nil, nofun, .nil⟩
    rw [List.nil_append] at hok herror
    rw [hindex']
    refine ⟨fun hcoherent => ?_, herror⟩
    obtain ⟨i, keys, hi, hnodes, hminipools⟩ := hok hcoherent
    exact ⟨i, hi, hnodes, hminipools.minipools, hminipools.minipoolsOf⟩
  · obtain ⟨fault, hfault⟩ := herror hnodup
    refine ⟨fun hcoherent => absurd hcoherent.nodes_nodup hnodup, fun _ => ⟨fault, ?_⟩⟩
    rw [SnapshotParts.index]
    exact congrArg (· >>= _) hfault

end SnapshotParts

namespace Snapshot
open SnapshotParts

/-- The snapshot of parts that agree with each other. -/
def ofCoherent (p : SnapshotParts) (h : Coherent p.nodes p.minipools) : Snapshot where
  parts := p
  index := p.index.toOption.getD .empty
  indexed := by
    obtain ⟨i, hi, -⟩ := (index_spec p).1 h
    rw [hi]
    rfl

theorem ofParts_of_coherent {p : SnapshotParts} (h : Coherent p.nodes p.minipools) :
    ofParts p = .ok (ofCoherent p h) := by
  have hindexed := (ofCoherent p h).indexed
  rw [ofParts]
  split
  · rename_i e he
    cases he.symm.trans hindexed
  · rename_i i hi
    cases hi.symm.trans hindexed
    rfl

theorem ofParts_of_not_coherent {p : SnapshotParts} (h : ¬ Coherent p.nodes p.minipools) :
    ∃ fault, ofParts p = .error fault := by
  obtain ⟨fault, hfault⟩ := (index_spec p).2 h
  refine ⟨fault, ?_⟩
  rw [ofParts]
  split
  · rename_i e he
    cases he.symm.trans hfault
    rfl
  · rename_i i hi
    cases hi.symm.trans hfault

variable (s : Snapshot)

/-- The parts of a snapshot agree with each other. -/
theorem coherent : Coherent s.parts.nodes s.parts.minipools := by
  by_contra hnot
  obtain ⟨fault, hfault⟩ := (index_spec s.parts).2 hnot
  cases hfault.symm.trans s.indexed

theorem leads : Leads s.index s.parts := by
  obtain ⟨i, hi, hleads⟩ := (index_spec s.parts).1 s.coherent
  cases hi.symm.trans s.indexed
  exact hleads

theorem node?_eq (a : Address) : s.node? a = s.parts.nodes.find? (·.address = a) :=
  s.leads.nodes.bind_getElem? a

theorem minipool?_eq (a : Address) : s.minipool? a = s.parts.minipools.find? (·.address = a) :=
  s.leads.minipools.bind_getElem? a

theorem minipoolsOf_eq (a : Address) :
    s.minipoolsOf a = s.parts.minipools.filter (·.nodeAddress = a) :=
  s.leads.minipoolsOf.filterMap_getElem? a

/-- **Every minipool of a snapshot belongs to one of its nodes**, and to no other. -/
theorem flatMap_minipoolsOf_perm :
    (s.parts.nodes.flatMap fun n => s.minipoolsOf n.address).Perm s.parts.minipools := by
  have hperm := flatMap_filter_perm MinipoolDetails.nodeAddress s.coherent.nodes_nodup
    s.coherent.node_listed
  rw [List.flatMap_map] at hperm
  simpa only [minipoolsOf_eq] using hperm

theorem node?_eq_some_iff {a : Address} {n : NodeDetails} :
    s.node? a = some n ↔ n ∈ s.parts.nodes ∧ n.address = a := by
  rw [node?_eq]
  exact find?_eq_some_iff_of_nodup s.coherent.nodes_nodup

theorem minipool?_eq_some_iff {a : Address} {m : MinipoolDetails} :
    s.minipool? a = some m ↔ m ∈ s.parts.minipools ∧ m.address = a := by
  rw [minipool?_eq]
  exact find?_eq_some_iff_of_nodup s.coherent.minipools_nodup

variable {s}

theorem mem_minipoolsOf_iff {a : Address} {m : MinipoolDetails} :
    m ∈ s.minipoolsOf a ↔ m ∈ s.parts.minipools ∧ m.nodeAddress = a := by
  rw [minipoolsOf_eq, List.mem_filter, decide_eq_true_iff]

/-- A minipool is found with one node, its own. -/
theorem existsUnique_node {m : MinipoolDetails} (hm : m ∈ s.parts.minipools) :
    ∃! n, n ∈ s.parts.nodes ∧ m ∈ s.minipoolsOf n.address := by
  obtain ⟨n, hn, haddress⟩ := List.mem_map.1 (s.coherent.node_listed m hm)
  refine ⟨n, ⟨hn, mem_minipoolsOf_iff.2 ⟨hm, haddress.symm⟩⟩, ?_⟩
  rintro n' ⟨hn', hfound⟩
  have hsame : n'.address = n.address := (mem_minipoolsOf_iff.1 hfound).2.symm.trans haddress.symm
  exact List.inj_on_of_nodup_map s.coherent.nodes_nodup hn' hn hsame

namespace Build

theorem assemble_of_coherent {p : SnapshotParts} (h : Coherent p.nodes p.minipools) :
    assemble p = .ok (ofCoherent p h) := by
  rw [assemble, ofParts_of_coherent h]
  rfl

theorem assemble_of_not_coherent {p : SnapshotParts} (h : ¬ Coherent p.nodes p.minipools) :
    ∃ reason, assemble p = .error (.inconsistent p.elBlock reason) := by
  obtain ⟨fault, hfault⟩ := ofParts_of_not_coherent h
  rw [assemble, hfault]
  exact ⟨fault.message, rfl⟩

theorem assemble_eq_ok {p : SnapshotParts} {s : Snapshot} (h : assemble p = .ok s) :
    s.parts = p := by
  by_cases hcoherent : Coherent p.nodes p.minipools
  · cases (assemble_of_coherent hcoherent).symm.trans h
    rfl
  · obtain ⟨reason, hreason⟩ := assemble_of_not_coherent hcoherent
    cases hreason.symm.trans h

/-- **Parts make a snapshot exactly when they agree with each other**, and others are refused at
their block. What is found by an address in the snapshot is what the parts list under it: a node, a
minipool, or the minipools of a node in their order. Each minipool is found with one node. -/
theorem assemble_spec (p : SnapshotParts) :
    ((∃ s, assemble p = .ok s) ↔ Coherent p.nodes p.minipools) ∧
    (¬ Coherent p.nodes p.minipools →
      ∃ reason, assemble p = .error (.inconsistent p.elBlock reason)) ∧
    ∀ s, assemble p = .ok s →
      s.parts = p ∧
      (∀ a n, s.node? a = some n ↔ n ∈ p.nodes ∧ n.address = a) ∧
      (∀ a m, s.minipool? a = some m ↔ m ∈ p.minipools ∧ m.address = a) ∧
      (∀ a, s.minipoolsOf a = p.minipools.filter (·.nodeAddress = a)) ∧
      ∀ m ∈ p.minipools, ∃! n, n ∈ p.nodes ∧ m ∈ s.minipoolsOf n.address := by
  refine ⟨⟨?_, fun h => ⟨_, assemble_of_coherent h⟩⟩, assemble_of_not_coherent, ?_⟩
  · rintro ⟨s, hs⟩
    exact assemble_eq_ok hs ▸ s.coherent
  · intro s hs
    obtain rfl := assemble_eq_ok hs
    exact ⟨rfl, fun _ _ => s.node?_eq_some_iff, fun _ _ => s.minipool?_eq_some_iff,
      s.minipoolsOf_eq, fun _ => existsUnique_node⟩

end Build
end Snapshot
end PoolKeeper
