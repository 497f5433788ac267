/-
What others may make of a published file (`parse_more_never_less`).

They may say more than is known here: whatever the order of the members, and
whatever further ones stand among them, the file is read as it was. They may not
say less: without a member the text is no rewards file, except for what has a
default and for a node as a whole.
-/
import PoolKeeper.Proofs.Rewards.Members
import PoolKeeper.Rewards.Compressed

namespace PoolKeeper

open Json

namespace RewardsFile

/-! ## Paths of members -/

/-- What may be left out of a file: a node, and what an entry has a default for. -/
inductive Omissible : List String → Prop
  | node {node : String} : Omissible ["nodeRewards", node]
  | network {node : String} : Omissible ["nodeRewards", node, "rewardNetwork"]
  | proof {node : String} : Omissible ["nodeRewards", node, "merkleProof"]

/-- All other members of a file, by the object that they are in. -/
inductive Needed : List String → Prop
  | own {k : String} (hk : k ∈ fields.names) : Needed [k]
  | total {k : String} (hk : k ∈ TotalRewards.fields.names) : Needed ["totalRewards", k]
  | amount {node k : String} (hk : k ∈ NodeRewards.required) : Needed ["nodeRewards", node, k]

theorem needed_of_hasMember {f : RewardsFile} {path : List String} (h : HasMember path f.json)
    (hpath : ¬ Omissible path) : Needed path := by
  have hcases : ∀ m ∈ f.json.members, m.2.IsPlain ∨ m = ("totalRewards", f.totals.json) ∨
      m = ("nodeRewards", f.nodesJson) := by
    simp only [json, members, List.forall_mem_cons]
    exact ⟨.inl trivial, .inl trivial, .inl trivial, .inl trivial, .inl trivial, .inl trivial,
      .inl trivial, .inl trivial, .inl trivial, .inr (.inl trivial), .inr (.inr rfl), by simp⟩
  cases h with
  | here hm => exact .own (List.mem_map_of_mem (f := Prod.fst) hm)
  | there hm hx =>
    rcases hcases _ hm with hplain | hsame | hsame
    · exact absurd hplain hx.not_isPlain
    · cases hsame
      obtain ⟨k, hk, rfl⟩ := hx.eq_singleton f.totals.isPlain_of_mem
      exact .total hk
    · cases hsame
      cases hx with
      | here => exact absurd .node hpath
      | there hm hx =>
        obtain ⟨e, -, he⟩ := List.mem_map.1 hm
        cases he
        obtain ⟨k, hk, rfl⟩ := hx.eq_singleton e.2.isPlain_of_mem
        refine .amount ?_
        have hk : k ∈ ["rewardNetwork", "collateralRpl", "oracleRpl", "smoothingPoolEth",
          "merkleProof"] := hk
        simp only [List.mem_cons, List.not_mem_nil, or_false] at hk
        rcases hk with rfl | rfl | rfl | rfl | rfl
        · exact absurd .network hpath
        · simp [NodeRewards.required]
        · simp [NodeRewards.required]
        · simp [NodeRewards.required]
        · exact absurd .proof hpath

/-! ## More and less -/

/-- The object that the member at a path of names is in. -/
def parent (path : List String) : Path := (path.dropLast.map Segment.key).reverse

/-- **Published files may say more, and never less.** However the members of a file's objects are
put in order, and whatever further ones stand among them, at the top, in the totals and in the
entries of nodes, every text of what comes of it is read as the file. Every text without one of the
members of the file is malformed, and the fault is at the object that lacks it; all that may be left
out is a node, its reward network and its proof. -/
theorem parse_more_never_less (f : RewardsFile) :
    (∀ v text, Rearranged "nodeRewards" true f.json v → v.Padded text → parse text = .ok f) ∧
      ∀ path v v' text, HasMember path f.json → ¬ Omissible path →
        Rearranged "nodeRewards" true f.json v → Without path v v' → v'.Padded text →
          parse text = .error (.malformed (.misfit (parent path))) := by
  refine ⟨fun v text hv htext => ?_, fun path v v' text hmember hpath hv hw htext => ?_⟩
  · rw [parse, ofText, Reader.read, Value.scan_of_padded htext, reads_of_rearranged hv]
    rfl
  · have hmisfit : reader.MisfitAt v'.tree (parent path) := by
      cases needed_of_hasMember hmember hpath with
      | own hk => exact lacking_of_rearranged hv hk hw
      | total hk => exact totals_misfit_of_rearranged hv hk hw
      | amount hk => exact node_misfit_of_rearranged hv hk hw
    rw [parse, ofText, Reader.read, Value.scan_of_padded htext, hmisfit, List.append_nil]
    rfl

/-- A file with one node. -/
def lone : RewardsFile where
  version := 1
  header := ⟨7, "holesky", 100, 200, 300, 400, 1⟩
  merkleRoot := .zero
  totals := ⟨1, 2, 3⟩
  nodes := .ofList [(.ofNat 5, ⟨0, 1, 2, 3, []⟩)]

/-- Its members in the opposite order, behind one that is not known. -/
def loneExtended : Json :=
  .object (("networkRewards", .object [("0", .object [("collateralRpl", .string "30")])]) ::
    lone.json.members.reverse)

/-- The file without one of its totals. -/
def loneIncomplete : Json :=
  .object (lone.json.members.take 9 ++
    ("totalRewards", .object (lone.totals.json.members.eraseIdx 1)) :: lone.json.members.drop 10)

theorem rearranged_loneExtended :
    Rearranged "nodeRewards" true lone.json loneExtended.value := by
  rw [loneExtended, value, memberValues_eq_map, List.map_cons, List.map_reverse]
  refine .object ?_ ?_ nofun
    (((List.reverse_perm _).cons _).trans (List.perm_append_singleton _ _).symm)
  · exact List.forall₂_map_right_iff.2 (List.forall₂_same.2 fun m _ => .mk (.same m.2))
  · simp

theorem without_loneIncomplete :
    Without ["totalRewards", "totalOracleRpl"] lone.json.value loneIncomplete.value := by
  have hvalue (ms : List (String × Json)) :
      (Json.object ms).value = .object (ms.map fun m => (m.1, m.2.value)) := by
    rw [value, memberValues_eq_map]
  have hfile : lone.json = .object (lone.json.members.take 9 ++
      ("totalRewards", lone.totals.json) :: lone.json.members.drop 10) := rfl
  rw [hfile, loneIncomplete, hvalue, hvalue, List.map_append, List.map_append, List.map_cons,
    List.map_cons]
  refine .there ?_
  rw [TotalRewards.json, hvalue]
  exact @Without.here _ _ [_] [_]

/-- **More members and blanks change nothing, and one member less is missed.** -/
theorem parse_loneExtended_loneIncomplete :
    Rearranged "nodeRewards" true lone.json loneExtended.value ∧
      loneExtended.value.Padded (loneExtended.writePretty 0) ∧
      parse (loneExtended.writePretty 0) = .ok lone ∧
      HasMember ["totalRewards", "totalOracleRpl"] lone.json ∧
      ¬ Omissible ["totalRewards", "totalOracleRpl"] ∧
      Without ["totalRewards", "totalOracleRpl"] lone.json.value loneIncomplete.value ∧
      loneIncomplete.value.Padded loneIncomplete.write ∧
      parse loneIncomplete.write = .error (.malformed (.misfit [.key "totalRewards"])) := by
  obtain ⟨hmore, hless⟩ := parse_more_never_less lone
  have hpretty := (text_writePretty loneExtended 0).padded
  have hmember : HasMember ["totalRewards", "totalOracleRpl"] lone.json :=
    .there (x := lone.totals.json) (by simp) (.here (x := lone.totals.oracleRpl.json) (by simp))
  have hneeded : ¬ Omissible ["totalRewards", "totalOracleRpl"] := by
    generalize hpath : ["totalRewards", "totalOracleRpl"] = path
    rintro (_ | _ | _) <;> simp at hpath
  have htext := (text_write loneIncomplete).padded
  exact ⟨rearranged_loneExtended, hpretty, hmore _ _ rearranged_loneExtended hpretty, hmember,
    hneeded, without_loneIncomplete, htext,
    hless _ _ _ _ hmember hneeded (.same lone.json) without_loneIncomplete htext⟩

end RewardsFile

end PoolKeeper
