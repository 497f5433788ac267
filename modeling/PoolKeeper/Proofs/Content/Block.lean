/-
Blocks: what an encoded node says of the nodes that it links to.

A block is a message whose fields are messages again, so it is read back part by
part (`read?_bytes`). How long it can get is bounded by how many links it has
(`length_bytes_le`), as every number in it takes ten bytes at most.
-/
import PoolKeeper.Proofs.Content.Message
import PoolKeeper.Proofs.Content.Spelling

namespace PoolKeeper.Dag

/-- What an encoded node records: the identifier and the total size of every child, the bytes of the
file below itself, and those below every child. -/
structure Block where
  links : List (Cid × Nat)
  fileSize : Nat
  blockSizes : List Nat

namespace Block
open Message

/-- The fields of a link. Links between parts of a file have no name. -/
def linkFields (l : Cid × Nat) : List Field :=
  [(1, .bytes l.1.toBytes), (2, .bytes []), (3, .number l.2)]

/-- The fields of the metadata, the first of which says that this is a file. -/
def metadataFields (b : Block) : List Field :=
  (1, .number 2) :: (3, .number b.fileSize) :: b.blockSizes.map fun n => (4, .number n)

/-- The links, then the metadata. -/
def fields (b : Block) : List Field :=
  (b.links.map fun l => (2, .bytes (Message.bytes (linkFields l)))) ++
    [(1, .bytes (Message.bytes b.metadataFields))]

def bytes (b : Block) : Bytes := Message.bytes b.fields

/-! ## Reading -/

def link? (bs : Bytes) : Option (Cid × Nat) := do
  let fields ← fields? bs
  let cid ← (parts 1 fields).head?
  return (← Cid.ofBytes? cid, ← (numbers 3 fields).head?)

/-- Reads what an encoded node records. -/
def read? (bs : Bytes) : Option Block := do
  let fields ← fields? bs
  let links ← (parts 2 fields).mapM link?
  let metadata ← fields? (← (parts 1 fields).head?)
  return ⟨links, ← (numbers 3 metadata).head?, numbers 4 metadata⟩

/-- The sizes have 64 bits, and there are no more links than a node may have. -/
structure Fits (b : Block) : Prop where
  totalSize : ∀ l ∈ b.links, l.2 < 2 ^ 64
  fileSize : b.fileSize < 2 ^ 64
  blockSize : ∀ n ∈ b.blockSizes, n < 2 ^ 64
  length : b.blockSizes.length ≤ maxLinks

/-! ## Lengths -/

theorem length_numberField_le (field : Nat) {n : Nat} (hfield : field < 16) (hn : n < 2 ^ 64) :
    (numberField field n).length ≤ 11 := by
  have hlength := Varint.length_encode_le_ten hn
  rw [numberField, Varint.encode_of_lt (by omega), List.length_append, List.length_singleton]
  omega

theorem length_bytesField_le (field : Nat) {bs : Bytes} (hfield : field < 15)
    (hbs : bs.length < 2 ^ 64) : (bytesField field bs).length ≤ bs.length + 11 := by
  have hlength := Varint.length_encode_le_ten hbs
  rw [bytesField, Varint.encode_of_lt (by omega), List.length_append, List.length_append,
    List.length_singleton]
  omega

theorem length_flatMap_le {α : Type} {f : α → Bytes} {k : Nat} {xs : List α}
    (h : ∀ x ∈ xs, (f x).length ≤ k) : (xs.flatMap f).length ≤ k * xs.length := by
  induction xs with
  | nil => simp
  | cons x xs ih =>
    obtain ⟨hx, hxs⟩ := List.forall_mem_cons.1 h
    have hrest := ih hxs
    rw [List.flatMap_cons, List.length_append, List.length_cons, Nat.mul_add]
    omega

theorem length_linkFields_le {l : Cid × Nat} (h : l.2 < 2 ^ 64) :
    (Message.bytes (linkFields l)).length ≤ 69 := by
  have hlength := l.1.length_toBytes
  have hcid : (bytesField 1 l.1.toBytes).length ≤ l.1.toBytes.length + 11 :=
    length_bytesField_le 1 (by decide) (by omega)
  have hname : (bytesField 2 []).length ≤ 11 := length_bytesField_le 2 (by decide) (by decide)
  have hsize := length_numberField_le 3 (by decide) h
  have hbytes : Message.bytes (linkFields l) =
      bytesField 1 l.1.toBytes ++ (bytesField 2 [] ++ (numberField 3 l.2 ++ [])) := rfl
  rw [hbytes, List.length_append, List.length_append, List.length_append]
  simp only [List.length_nil] at *
  omega

section
variable {b : Block} (h : b.Fits)
include h

theorem length_metadataFields_le :
    (Message.bytes b.metadataFields).length ≤ 11 * b.blockSizes.length + 22 := by
  have hkind : (numberField 1 2).length ≤ 11 := length_numberField_le 1 (by decide) (by decide)
  have hsize := length_numberField_le 3 (by decide) h.fileSize
  have hsizes : ((b.blockSizes.map fun n => (4, Payload.number n)).flatMap Field.bytes).length ≤
      11 * b.blockSizes.length := by
    rw [List.flatMap_map]
    exact length_flatMap_le fun n hn => length_numberField_le 4 (by decide) (h.blockSize n hn)
  have hbytes : Message.bytes b.metadataFields = numberField 1 2 ++ (numberField 3 b.fileSize ++
      (b.blockSizes.map fun n => (4, Payload.number n)).flatMap Field.bytes) := rfl
  rw [hbytes, List.length_append, List.length_append]
  omega

/-- A link takes 80 bytes at most, and 11 more in the metadata. -/
theorem length_bytes_le :
    b.bytes.length ≤ 80 * b.links.length + (11 * b.blockSizes.length + 33) := by
  have hmetadata := length_metadataFields_le h
  have hcount := h.length
  rw [maxLinks] at hcount
  have hfield : (bytesField 1 (Message.bytes b.metadataFields)).length ≤
      (Message.bytes b.metadataFields).length + 11 :=
    length_bytesField_le 1 (by decide) (by omega)
  have hlinks : ((b.links.map fun l => (2, Payload.bytes (Message.bytes (linkFields l)))).flatMap
      Field.bytes).length ≤ 80 * b.links.length := by
    rw [List.flatMap_map]
    refine length_flatMap_le fun l hl => ?_
    have hlink := length_linkFields_le (h.totalSize l hl)
    exact Nat.le_trans (length_bytesField_le 2 (by decide) (by omega)) (by omega)
  have hbytes : b.bytes = (b.links.map fun l =>
      (2, Payload.bytes (Message.bytes (linkFields l)))).flatMap Field.bytes ++
        (bytesField 1 (Message.bytes b.metadataFields) ++ []) := List.flatMap_append
  rw [hbytes, List.length_append, List.append_nil]
  omega

end

/-! ## What is read -/

theorem link?_bytes {l : Cid × Nat} (h : l.2 < 2 ^ 64) :
    link? (Message.bytes (linkFields l)) = some l := by
  have hlength := l.1.length_toBytes
  have hfields : fields? (Message.bytes (linkFields l)) = some (linkFields l) := by
    refine fields?_bytes ?_
    simp [linkFields, Field.Fits, hlength, h]
  have hparts : parts 1 (linkFields l) = [l.1.toBytes] := rfl
  have hnumbers : numbers 3 (linkFields l) = [l.2] := rfl
  simp [link?, hfields, hparts, hnumbers, Cid.ofBytes?_toBytes]

theorem mapM_link?_bytes {ls : List (Cid × Nat)} (h : ∀ l ∈ ls, l.2 < 2 ^ 64) :
    (ls.map fun l => Message.bytes (linkFields l)).mapM link? = some ls := by
  induction ls with
  | nil => rfl
  | cons l ls ih =>
    obtain ⟨hl, hls⟩ := List.forall_mem_cons.1 h
    rw [List.map_cons, List.mapM_cons, link?_bytes hl, ih hls]
    rfl

theorem fits_metadataFields {b : Block} (h : b.Fits) : ∀ f ∈ b.metadataFields, f.Fits := by
  intro f hf
  simp only [metadataFields, List.mem_cons, List.mem_map] at hf
  rcases hf with rfl | rfl | ⟨n, hn, rfl⟩
  · simp [Field.Fits]
  · exact ⟨by decide, h.fileSize⟩
  · exact ⟨by decide, h.blockSize n hn⟩

theorem fits_fields {b : Block} (h : b.Fits) : ∀ f ∈ b.fields, f.Fits := by
  have hmetadata := length_metadataFields_le h
  have hcount := h.length
  rw [maxLinks] at hcount
  intro f hf
  rcases List.mem_append.1 hf with hlink | hlast
  · obtain ⟨l, hl, rfl⟩ := List.mem_map.1 hlink
    have hlength := length_linkFields_le (h.totalSize l hl)
    exact ⟨by decide, by omega⟩
  · cases List.mem_singleton.1 hlast
    exact ⟨by decide, by omega⟩

/-- **What a node records is read back from its bytes.** -/
theorem read?_bytes {b : Block} (h : b.Fits) : read? b.bytes = some b := by
  have hparts : parts 2 b.fields = b.links.map fun l => Message.bytes (linkFields l) := by
    rw [fields, parts_append, parts_map_bytes, if_pos rfl]
    exact List.append_nil _
  have hmetadata : parts 1 b.fields = [Message.bytes b.metadataFields] := by
    rw [fields, parts_append, parts_map_bytes, if_neg (by decide)]
    rfl
  have hnumbers : numbers 3 b.metadataFields = [b.fileSize] ∧
      numbers 4 b.metadataFields = b.blockSizes := by
    have hfields : b.metadataFields = [(1, .number 2), (3, .number b.fileSize)] ++
        b.blockSizes.map fun n => (4, .number n) := rfl
    rw [hfields, numbers_append, numbers_append, numbers_map_number, numbers_map_number,
      if_neg (by decide), if_pos rfl]
    exact ⟨rfl, List.map_id _⟩
  simp [read?, bytes, fields?_bytes (fits_fields h), hparts, mapM_link?_bytes h.totalSize,
    hmetadata, fields?_bytes (fits_metadataFields h), hnumbers]

end Block
end PoolKeeper.Dag
