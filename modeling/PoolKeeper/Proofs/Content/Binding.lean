/-
What an identifier commits to.

Numbers and fields tell where they end, so an encoded node tells the identifiers
of its children and an encoded directory the name of its entry too. A raw leaf
and an encoded node are never mistaken for each other, since their identifiers
differ in the codec. Walking down two graphs at once, equal identifiers mean
equal contents (`content_eq_of_cid_eq`), whatever the shapes of the graphs are,
unless two of the strings that were hashed collide.
-/
import PoolKeeper.Content.Dag
import PoolKeeper.Proofs.Collision
import PoolKeeper.Proofs.Content.Varint

namespace PoolKeeper

/-! ## Where numbers and fields end -/

theorem Codec.code_inj {c d : Codec} (h : c.code = d.code) : c = d := by
  cases c <;> cases d <;> first | rfl | cases h

theorem Cid.toBytes_inj {c d : Cid} (h : c.toBytes = d.toBytes) : c = d := by
  obtain ⟨-, h⟩ := Varint.encode_append_inj h
  obtain ⟨hcodec, h⟩ := Varint.encode_append_inj h
  obtain ⟨-, h⟩ := Varint.encode_append_inj h
  obtain ⟨-, h⟩ := Varint.encode_append_inj h
  cases c
  cases d
  rw [Cid.mk.injEq]
  exact ⟨Codec.code_inj hcodec, FixedBytes.toBytes_inj h⟩

theorem Bytes.ofText_inj {s t : String} (h : ofText s = ofText t) : s = t := by
  have htext := congrArg text? h
  rw [text?_ofText, text?_ofText] at htext
  exact Option.some.inj htext

namespace Dag

/-- A bytes field tells its number, its bytes and where it ends. -/
theorem bytesField_append_inj {field field' : Nat} {bs bs' r s : Bytes}
    (h : bytesField field bs ++ r = bytesField field' bs' ++ s) :
    field = field' ∧ bs = bs' ∧ r = s := by
  rw [bytesField, bytesField, List.append_assoc, List.append_assoc, List.append_assoc,
    List.append_assoc] at h
  obtain ⟨hfield, h⟩ := Varint.encode_append_inj h
  obtain ⟨hlength, h⟩ := Varint.encode_append_inj h
  obtain ⟨hbs, hrest⟩ := List.append_inj h hlength
  exact ⟨by omega, hbs, hrest⟩

/-- A link tells the name and the identifier of what it points at. -/
theorem linkBytes_inj {name name' : Bytes} {l l' : Link}
    (h : linkBytes name l = linkBytes name' l') : l.cid = l'.cid ∧ name = name' := by
  obtain ⟨-, hcid, h⟩ := bytesField_append_inj h
  obtain ⟨-, hname, -⟩ := bytesField_append_inj h
  exact ⟨Cid.toBytes_inj hcid, hname⟩

/-- **An encoded node tells the identifiers of its children.** Links and metadata are fields of
different numbers, so the links end where the metadata begins. -/
theorem nodeBytes_inj {links links' : List Link} (h : nodeBytes links = nodeBytes links') :
    links.map Link.cid = links'.map Link.cid := by
  rw [nodeBytes, nodeBytes] at h
  generalize fileMetadata links = metadata at h
  generalize fileMetadata links' = metadata' at h
  induction links generalizing links' with
  | nil =>
    rw [List.flatMap_nil, List.nil_append, ← List.append_nil (bytesField 1 metadata)] at h
    cases links' with
    | nil => rfl
    | cons l' links' =>
      rw [List.flatMap_cons, List.append_assoc] at h
      cases (bytesField_append_inj h).1
  | cons l links ih =>
    rw [List.flatMap_cons, List.append_assoc] at h
    cases links' with
    | nil =>
      rw [List.flatMap_nil, List.nil_append, ← List.append_nil (bytesField 1 metadata')] at h
      cases (bytesField_append_inj h).1
    | cons l' links' =>
      rw [List.flatMap_cons, List.append_assoc] at h
      obtain ⟨-, hlink, hrest⟩ := bytesField_append_inj h
      rw [List.map_cons, List.map_cons, (linkBytes_inj hlink).1, ih hrest]

theorem directoryBytes_inj {name name' : Bytes} {l l' : Link}
    (h : directoryBytes name l = directoryBytes name' l') : l.cid = l'.cid ∧ name = name' :=
  linkBytes_inj (bytesField_append_inj h).2.1

/-! ## What lies below a node -/

mutual
/-- The bytes of a file below a node. -/
def Node.content : Node → Bytes
  | .leaf chunk => chunk
  | .inner children => contentOf children

def contentOf : List Node → Bytes
  | [] => []
  | n :: ns => n.content ++ contentOf ns
end

theorem contentOf_eq_flatMap (ns : List Node) : contentOf ns = ns.flatMap Node.content := by
  induction ns with
  | nil => rfl
  | cons n ns ih => rw [contentOf, ih, List.flatMap_cons]

theorem contentOf_leaves (chunks : List Bytes) : contentOf (chunks.map .leaf) = chunks.flatten := by
  induction chunks with
  | nil => rfl
  | cons chunk chunks ih =>
    rw [List.map_cons, contentOf, ih, List.flatten_cons]
    rfl

/-- The parents of nodes hold what the nodes hold. -/
theorem contentOf_inner (groups : List (List Node)) :
    contentOf (groups.map .inner) = contentOf groups.flatten := by
  induction groups with
  | nil => rfl
  | cons ns groups ih =>
    rw [List.map_cons, contentOf, ih, Node.content, List.flatten_cons, contentOf_eq_flatMap,
      contentOf_eq_flatMap, contentOf_eq_flatMap, List.flatMap_append]

theorem content_raise (level : List Node) : (raise level).content = contentOf level := by
  fun_induction raise level with
  | case1 => rfl
  | case2 n => rw [contentOf, contentOf, List.append_nil]
  | case3 a b rest ih => rw [ih, contentOf_inner, flatten_pieces (by decide)]

/-- **The graph over a file holds the file.** -/
theorem content_ofBytes (data : Bytes) : (ofBytes data).content = data := by
  rw [ofBytes, content_raise, leavesOf]
  split
  · rename_i hempty
    exact (List.isEmpty_iff.1 hempty).symm
  · rw [contentOf_leaves, flatten_pieces (by decide)]

/-! ## Walking down two graphs -/

section Walk
variable (digest : Bytes → Hash)

mutual
/-- The strings that are hashed for the identifier of a node: the chunks and the encoded nodes. -/
def Node.hashed : Node → List Bytes
  | .leaf chunk => [chunk]
  | .inner children => nodeBytes (linksOf digest children) :: hashedOf children

def hashedOf : List Node → List Bytes
  | [] => []
  | n :: ns => n.hashed ++ hashedOf ns
end

variable {digest} {strings : List Bytes}

mutual
/-- **Nodes of one identifier hold the same**, however they are made. -/
theorem content_eq_of_cid_eq (safe : ¬ Collision digest strings) :
    ∀ {m n : Node}, m.hashed digest ⊆ strings → n.hashed digest ⊆ strings →
      (m.link digest).cid = (n.link digest).cid → m.content = n.content
  | .leaf chunk, .leaf chunk', hm, hn, h => by
    obtain ⟨-, hdigest⟩ := Cid.mk.inj h
    exact eq_of_hash_eq safe (hm List.mem_cons_self) (hn List.mem_cons_self) hdigest
  | .leaf _, .inner _, _, _, h => by cases (Cid.mk.inj h).1
  | .inner _, .leaf _, _, _, h => by cases (Cid.mk.inj h).1
  | .inner ms, .inner ns, hm, hn, h => by
    obtain ⟨-, hdigest⟩ := Cid.mk.inj h
    obtain ⟨hmine, hmine'⟩ := List.cons_subset.1 hm
    obtain ⟨hyours, hyours'⟩ := List.cons_subset.1 hn
    exact contentOf_eq_of_cids_eq safe hmine' hyours'
      (nodeBytes_inj (eq_of_hash_eq safe hmine hyours hdigest))

theorem contentOf_eq_of_cids_eq (safe : ¬ Collision digest strings) :
    ∀ {ms ns : List Node}, hashedOf digest ms ⊆ strings → hashedOf digest ns ⊆ strings →
      (linksOf digest ms).map Link.cid = (linksOf digest ns).map Link.cid →
      contentOf ms = contentOf ns
  | [], [], _, _, _ => rfl
  | [], _ :: _, _, _, h => by cases h
  | _ :: _, [], _, _, h => by cases h
  | m :: ms, n :: ns, hms, hns, h => by
    obtain ⟨hm, hms⟩ := List.append_subset.1 hms
    obtain ⟨hn, hns⟩ := List.append_subset.1 hns
    obtain ⟨hfirst, hrest⟩ := List.cons.inj h
    rw [contentOf, contentOf, content_eq_of_cid_eq safe hm hn hfirst,
      contentOf_eq_of_cids_eq safe hms hns hrest]
end

end Walk

/-- A file that fits in one chunk is a leaf. -/
theorem ofBytes_of_length_le {data : Bytes} (h : data.length ≤ chunkSize) :
    ofBytes data = .leaf data := by
  cases data with
  | nil => rw [ofBytes, leavesOf, List.isEmpty_nil, if_pos rfl, raise]
  | cons b bs =>
    have hpieces : pieces chunkSize (b :: bs) = [b :: bs] := by
      rw [pieces, dif_pos ⟨by decide, List.cons_ne_nil b bs⟩, List.take_of_length_le h,
        List.drop_of_length_le h, pieces, dif_neg fun h => h.2 rfl]
    rw [ofBytes, leavesOf, List.isEmpty_cons, if_neg Bool.false_ne_true, hpieces,
      List.map_singleton, raise]

end Dag

namespace Cid
variable {d d' : Bytes} {n n' : String}

/-- The strings that are hashed to identify a file by its bytes alone. -/
def hashedForBytes (data : Bytes) : List Bytes := (Dag.ofBytes data).hashed sha256

/-- The strings that are hashed to identify a file under a name. -/
def hashedForFile (data : Bytes) (name : String) : List Bytes :=
  Dag.directoryBytes (Bytes.ofText name) ((Dag.ofBytes data).link sha256) :: hashedForBytes data

/-- The root of a graph tells the file. -/
theorem data_eq_of_root_eq {strings : List Bytes} (safe : ¬ Collision sha256 strings)
    (hd : hashedForBytes d ⊆ strings) (hd' : hashedForBytes d' ⊆ strings)
    (h : ofBytes d = ofBytes d') : d = d' := by
  have hcontent := Dag.content_eq_of_cid_eq safe hd hd' h
  rwa [Dag.content_ofBytes, Dag.content_ofBytes] at hcontent

/-- **An identifier binds name and content.** Files of one identifier are the same bytes, and have
the same name if they were published under one, unless two strings that were hashed for them
collide. -/
theorem binds_name_and_content (d d' : Bytes) (n n' : String) :
    (ofFile d n = ofFile d' n' →
      (d = d' ∧ n = n') ∨ Collision sha256 (hashedForFile d n ++ hashedForFile d' n')) ∧
    (ofBytes d = ofBytes d' →
      d = d' ∨ Collision sha256 (hashedForBytes d ++ hashedForBytes d')) := by
  constructor
  · intro h
    refine Classical.or_iff_not_imp_right.2 fun safe => ?_
    obtain ⟨hdirectory, hd⟩ := List.cons_subset.1
      (List.subset_append_left (hashedForFile d n) (hashedForFile d' n'))
    obtain ⟨hdirectory', hd'⟩ := List.cons_subset.1
      (List.subset_append_right (hashedForFile d n) (hashedForFile d' n'))
    obtain ⟨-, hdigest⟩ := Cid.mk.inj h
    obtain ⟨hroot, hname⟩ :=
      Dag.directoryBytes_inj (eq_of_hash_eq safe hdirectory hdirectory' hdigest)
    exact ⟨data_eq_of_root_eq safe hd hd' hroot, Bytes.ofText_inj hname⟩
  · intro h
    refine Classical.or_iff_not_imp_right.2 fun safe => ?_
    exact data_eq_of_root_eq safe (List.subset_append_left _ _) (List.subset_append_right _ _) h

/-- The same five bytes under two names. -/
theorem names_tell_apart :
    ofFile [104, 101, 108, 108, 111] "rp-rewards-mainnet-5.json.zst" ≠
      ofFile [104, 101, 108, 108, 111] "rp-rewards-mainnet-6.json.zst" := by
  intro h
  rcases (binds_name_and_content _ _ _ _).1 h with ⟨-, hname⟩ | hcollision
  · revert hname
    decide
  · revert hcollision
    rw [Collision, hashedForFile, hashedForFile, hashedForBytes,
      Dag.ofBytes_of_length_le (by decide)]
    decide +kernel

end Cid
end PoolKeeper
