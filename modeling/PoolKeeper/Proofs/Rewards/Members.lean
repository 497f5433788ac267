/-
A rewards file, member by member: each of its records is read whatever the order
of its members and whatever stands among them (`reads_of_rearranged`), and is a
misfit without a member that has no default (`lacking_of_rearranged`).
-/
import PoolKeeper.Proofs.Json.Rearranged
import PoolKeeper.Proofs.KeyMap
import PoolKeeper.Rewards.Json

namespace PoolKeeper

open Json Json.Reader Json.FieldReader

/-! ## Every number has 64 bits -/

theorem Json.fits_ofUInt64 (n : UInt64) : (Json.ofUInt64 n).Fits := n.toNat_lt

theorem NodeRewards.fits_json (r : NodeRewards) : r.json.Fits := by
  have hproof : (Json.array (r.merkleProof.map FixedBytes.json)).Fits := by
    refine fitAll_iff.2 fun x hx => ?_
    obtain ⟨h, _, rfl⟩ := List.mem_map.1 hx
    trivial
  exact ⟨fits_ofUInt64 r.rewardNetwork, trivial, trivial, trivial, hproof, trivial⟩

theorem RewardsFile.fits_json (f : RewardsFile) : f.json.Fits := by
  have hnodes : (Json.object (f.nodes.entries.map fun e => (e.1.text, e.2.json))).Fits := by
    refine membersFit_iff.2 fun m hm => ?_
    obtain ⟨e, _, rfl⟩ := List.mem_map.1 hm
    exact e.2.fits_json
  exact ⟨fits_ofUInt64 _, fits_ofUInt64 _, trivial, fits_ofUInt64 _, fits_ofUInt64 _,
    fits_ofUInt64 _, fits_ofUInt64 _, fits_ofUInt64 _, trivial,
    ⟨trivial, trivial, trivial, trivial⟩, hnodes, trivial⟩

variable {closed : String} {more : Bool} {value? : String → Option Tree} {v v' : Value}
  {k : String}

/-! ## Nodes -/

namespace NodeRewards

/-- The fields of an entry. -/
def fields : FieldReader NodeRewards :=
  NodeRewards.mk
    <$> fieldOr "rewardNetwork" 0 .uint64
    <*> field "collateralRpl" .quotedDecimal
    <*> field "oracleRpl" .quotedDecimal
    <*> field "smoothingPoolEth" .quotedDecimal
    <*> fieldOr "merkleProof" [] (.list .fixedBytes)

theorem reader_eq : reader = record fields := rfl

/-- The amounts of an entry have no default. -/
def required : List String := ["collateralRpl", "oracleRpl", "smoothingPoolEth"]

theorem isPlain_of_mem (r : NodeRewards) : ∀ m ∈ r.json.members, m.2.IsPlain := by
  simp only [json, members, List.forall_mem_cons]
  exact ⟨trivial, trivial, trivial, trivial, trivial, by simp⟩

theorem proof_reads (r : NodeRewards) : (Reader.list .fixedBytes).Reads
    (Json.array (r.merkleProof.map FixedBytes.json)).tree r.merkleProof := by
  rw [tree, trees_eq_map, List.map_map]
  refine list_reads ?_
  rw [List.forall₂_map_left_iff, List.forall₂_same]
  intro x _
  exact fixedBytes_reads x

theorem fields_takes (r : NodeRewards) (h : ∀ m ∈ r.json.members, Shows closed value? m) :
    fields.Takes value? r required := by
  obtain ⟨-, -, -, -, hfits, -⟩ := r.fits_json
  simp only [json, members, List.forall_mem_cons] at h
  obtain ⟨hnetwork, hcollateral, horacle, hpool, hproof, -⟩ := h
  exact seq_takes (seq_takes (seq_takes (seq_takes (map_takes
    (fieldOr_takes (hnetwork.of_isPlain trivial (fits_ofUInt64 _))
      (uint64_reads r.rewardNetwork)))
    (field_takes (hcollateral.of_isPlain trivial trivial) (quotedDecimal_reads r.collateralRpl)))
    (field_takes (horacle.of_isPlain trivial trivial) (quotedDecimal_reads r.oracleRpl)))
    (field_takes (hpool.of_isPlain trivial trivial) (quotedDecimal_reads r.smoothingPoolEth)))
    (fieldOr_takes (hproof.of_isPlain trivial hfits) r.proof_reads)

theorem reads_of_rearranged {r : NodeRewards} (h : Rearranged closed more r.json v) :
    reader.Reads v.tree r := by
  rw [reader_eq]
  exact record_reads_of_rearranged (r := fields) rfl (by decide) h
    fun _ hs => (r.fields_takes hs).reads

theorem lacking_of_rearranged {r : NodeRewards} (h : Rearranged closed more r.json v)
    (hk : k ∈ required) (hw : Without [k] v v') : reader.MisfitAt v'.tree [] := by
  rw [reader_eq]
  exact record_lacking_of_rearranged (r := fields) rfl (by decide) h
    (fun _ hs => r.fields_takes hs) hk hw

end NodeRewards

/-! ## Totals -/

namespace TotalRewards

/-- The fields of the totals. -/
def fields : FieldReader TotalRewards :=
  TotalRewards.mk
    <$> field "totalCollateralRpl" .quotedDecimal
    <*> field "totalOracleRpl" .quotedDecimal
    <*> field "totalSmoothingPoolEth" .quotedDecimal

theorem reader_eq : reader = record fields := rfl

theorem isPlain_of_mem (t : TotalRewards) : ∀ m ∈ t.json.members, m.2.IsPlain := by
  simp only [json, members, List.forall_mem_cons]
  exact ⟨trivial, trivial, trivial, by simp⟩

theorem fields_takes (t : TotalRewards) (h : ∀ m ∈ t.json.members, Shows closed value? m) :
    fields.Takes value? t fields.names := by
  simp only [json, members, List.forall_mem_cons] at h
  obtain ⟨hcollateral, horacle, hpool, -⟩ := h
  exact seq_takes (seq_takes (map_takes
    (field_takes (hcollateral.of_isPlain trivial trivial) (quotedDecimal_reads t.collateralRpl)))
    (field_takes (horacle.of_isPlain trivial trivial) (quotedDecimal_reads t.oracleRpl)))
    (field_takes (hpool.of_isPlain trivial trivial) (quotedDecimal_reads t.smoothingPoolEth))

theorem reads_of_rearranged {t : TotalRewards} (h : Rearranged closed more t.json v) :
    reader.Reads v.tree t := by
  rw [reader_eq]
  exact record_reads_of_rearranged (r := fields) rfl (by decide) h
    fun _ hs => (t.fields_takes hs).reads

theorem lacking_of_rearranged {t : TotalRewards} (h : Rearranged closed more t.json v)
    (hk : k ∈ fields.names) (hw : Without [k] v v') : reader.MisfitAt v'.tree [] := by
  rw [reader_eq]
  exact record_lacking_of_rearranged (r := fields) rfl (by decide) h
    (fun _ hs => t.fields_takes hs) hk hw

end TotalRewards

/-! ## Files -/

namespace RewardsFile

/-- The fields of a file that stand for themselves. -/
def head : FieldReader (TotalRewards → KeyMap 20 NodeRewards → RewardsFile) :=
  (fun version index network start stop slot block passed =>
      RewardsFile.mk version ⟨index, network, start, stop, slot, block, passed⟩)
    <$> field "rewardsFileVersion" .uint64
    <*> field "index" .uint64
    <*> field "network" .string
    <*> field "startTime" .uint64
    <*> field "endTime" .uint64
    <*> field "consensusEndBlock" .uint64
    <*> field "executionEndBlock" .uint64
    <*> field "intervalsPassed" .uint64
    <*> field "merkleRoot" .fixedBytes

/-- The fields of a file. -/
def fields : FieldReader RewardsFile :=
  head <*> field "totalRewards" TotalRewards.reader
    <*> field "nodeRewards" (reader.nodes NodeRewards.reader)

theorem reader_eq : reader = record fields := rfl

theorem head_takes (f : RewardsFile)
    (h : ∀ m ∈ f.json.members, m.1 ∈ head.names → Shows closed value? m) :
    head.Takes value? (RewardsFile.mk f.version f.header f.merkleRoot) head.names := by
  simp only [json, members, List.forall_mem_cons] at h
  obtain ⟨hversion, hindex, hnetwork, hstart, hend, hslot, hblock, hpassed, hroot, -⟩ := h
  exact seq_takes (seq_takes (seq_takes (seq_takes (seq_takes (seq_takes (seq_takes (seq_takes
    (map_takes
    (field_takes ((hversion (by decide)).of_isPlain trivial (fits_ofUInt64 _))
      (uint64_reads f.version)))
    (field_takes ((hindex (by decide)).of_isPlain trivial (fits_ofUInt64 _))
      (uint64_reads f.header.index)))
    (field_takes ((hnetwork (by decide)).of_isPlain trivial trivial)
      (string_reads f.header.network)))
    (field_takes ((hstart (by decide)).of_isPlain trivial (fits_ofUInt64 _))
      (uint64_reads f.header.startTime)))
    (field_takes ((hend (by decide)).of_isPlain trivial (fits_ofUInt64 _))
      (uint64_reads f.header.endTime)))
    (field_takes ((hslot (by decide)).of_isPlain trivial (fits_ofUInt64 _))
      (uint64_reads f.header.consensusEndBlock)))
    (field_takes ((hblock (by decide)).of_isPlain trivial (fits_ofUInt64 _))
      (uint64_reads f.header.executionEndBlock)))
    (field_takes ((hpassed (by decide)).of_isPlain trivial (fits_ofUInt64 _))
      (uint64_reads f.header.intervalsPassed)))
    (field_takes ((hroot (by decide)).of_isPlain trivial trivial) (fixedBytes_reads f.merkleRoot))

/-- The entries as members. -/
def nodesJson (f : RewardsFile) : Json :=
  .object (f.nodes.entries.map fun e => (e.1.text, e.2.json))

/-- An entry under its address, among those of the file. -/
theorem entry_reads {m : String × Value} {e : Address × NodeRewards}
    (h : RearrangedMember closed (e.1.text, e.2.json) m) :
    FixedBytes.ofText? m.1 = some e.1 ∧ NodeRewards.reader.Reads m.2.tree e.2 := by
  obtain ⟨h⟩ := h
  exact ⟨FixedBytes.ofText?_text e.1, NodeRewards.reads_of_rearranged h⟩

theorem nodes_reads_of_rearranged {f : RewardsFile} (h : Rearranged closed false f.nodesJson v) :
    Reader.Reads (reader.nodes NodeRewards.reader) v.tree f.nodes := by
  obtain ⟨es, ms, rfl, hperm, hes⟩ := h.exists_entries
  have hentries : (Reader.mapOf FixedBytes.ofText? NodeRewards.reader).Reads
      (Value.object ms).tree es := by
    rw [Value.tree_object]
    refine mapOf_reads ?_
    rw [List.forall₂_map_left_iff]
    exact hes.imp fun m e hm => entry_reads hm
  have hnodes : KeyMap.ofList es = f.nodes := by
    rw [← f.nodes.ofList_entries]
    exact (KeyMap.ofList_perm f.nodes.nodup_keys hperm.symm).symm
  intro path
  rw [reader.nodes, hentries path, Except.map, hnodes]

/-- Without a member that it requires a node makes the nodes a misfit. -/
theorem nodes_lacking_of_rearranged {f : RewardsFile} {node : String}
    (h : Rearranged closed false f.nodesJson v) (hk : k ∈ NodeRewards.required)
    (hw : Without [node, k] v v') :
    Reader.MisfitAt (reader.nodes NodeRewards.reader) v'.tree [.key node] := by
  obtain ⟨es, ms, rfl, -, hes⟩ := h.exists_entries
  cases hw with
  | @there _ _ u u' before after hu =>
    obtain ⟨e, -, he⟩ := exists_mem_of_forall₂ hes (List.mem_append_right before List.mem_cons_self)
    obtain ⟨hu'⟩ := he
    have hbefore : ∀ m ∈ seen before, ∃ (key : Address) (r : NodeRewards),
        FixedBytes.ofText? m.1 = some key ∧ NodeRewards.reader.Reads m.2 r := by
      intro m hseen
      obtain ⟨m, hm, rfl⟩ := List.mem_map.1 hseen
      obtain ⟨e, -, he⟩ := exists_mem_of_forall₂ hes (List.mem_append_left _ hm)
      exact ⟨e.1, e.2, entry_reads he⟩
    have hmisfit := mapOf_misfit (seen after) hbefore (FixedBytes.ofText?_text e.1)
      (NodeRewards.lacking_of_rearranged hu' hk hu)
    intro path
    rw [Value.tree_object, ← seen, seen_middle, reader.nodes, hmisfit path]
    rfl

/-! ### All fields -/

section
variable {f : RewardsFile}

theorem fields_takes (h : ∀ m ∈ f.json.members, Shows "nodeRewards" value? m) :
    fields.Takes value? f fields.names := by
  have hhead := f.head_takes fun m hm _ => h m hm
  obtain ⟨_, htotals, ht⟩ := h ("totalRewards", f.totals.json) (by simp [json, members])
  obtain ⟨_, hnodes, hn⟩ := h ("nodeRewards", f.nodesJson) (by simp [json, members, nodesJson])
  exact seq_takes (seq_takes hhead (field_takes htotals (TotalRewards.reads_of_rearranged ht)))
    (field_takes hnodes (nodes_reads_of_rearranged hn))

theorem reads_of_rearranged (h : Rearranged "nodeRewards" true f.json v) :
    reader.Reads v.tree f := by
  rw [reader_eq]
  exact record_reads_of_rearranged (r := fields) rfl (by decide) h
    fun _ hs => (fields_takes hs).reads

theorem lacking_of_rearranged (h : Rearranged "nodeRewards" true f.json v)
    (hk : k ∈ fields.names) (hw : Without [k] v v') : reader.MisfitAt v'.tree [] := by
  rw [reader_eq]
  exact record_lacking_of_rearranged (r := fields) rfl (by decide) h
    (fun _ hs => fields_takes hs) hk hw

theorem totals_misfit_of_rearranged (h : Rearranged "nodeRewards" true f.json v)
    (hk : k ∈ TotalRewards.fields.names) (hw : Without ["totalRewards", k] v v') :
    reader.MisfitAt v'.tree [.key "totalRewards"] := by
  rw [reader_eq]
  refine record_misfit_of_rearranged (r := fields) (k := "totalRewards") (x := f.totals.json) rfl
    (by decide) h (by simp) (by simp) (fun value? u u' hs hu hlack hvalue => ?_) hw
  have hhead := f.head_takes fun m hm hname => hs m hm fun heq => by
    rw [heq] at hname
    exact absurd hname (by decide)
  obtain ⟨_, hnodes, hn⟩ := hs ("nodeRewards", f.nodesJson) (by simp [nodesJson]) (by simp)
  exact seq_misfit_left (seq_misfit_right hhead.reads
    (field_misfit hvalue (TotalRewards.lacking_of_rearranged hu hk hlack)))
    (field_reads hnodes (nodes_reads_of_rearranged hn))

theorem node_misfit_of_rearranged {node : String} (h : Rearranged "nodeRewards" true f.json v)
    (hk : k ∈ NodeRewards.required) (hw : Without ["nodeRewards", node, k] v v') :
    reader.MisfitAt v'.tree [.key node, .key "nodeRewards"] := by
  rw [reader_eq]
  refine record_misfit_of_rearranged (r := fields) (k := "nodeRewards") (x := f.nodesJson) rfl
    (by decide) h (by simp [nodesJson]) (by simp) (fun value? u u' hs hu hlack hvalue => ?_) hw
  have hhead := f.head_takes fun m hm hname => hs m hm fun heq => by
    rw [heq] at hname
    exact absurd hname (by decide)
  obtain ⟨_, htotals, ht⟩ := hs ("totalRewards", f.totals.json) (by simp) (by simp)
  exact seq_misfit_right (seq_reads hhead.reads
    (field_reads htotals (TotalRewards.reads_of_rearranged ht)))
    (field_misfit hvalue (nodes_lacking_of_rearranged hu hk hlack))

end

end RewardsFile

end PoolKeeper
