/-
Values whose members have been put in another order and among further ones
(`Rearranged`), and values without one of their members (`Without`).

A reader of records sees no difference to the value that was written
(`record_reads_of_rearranged`), unless a field is missing that it requires
(`record_lacking_of_rearranged`) or a member of a member is
(`record_misfit_of_rearranged`).
-/
import Mathlib.Data.List.Nodup
import Mathlib.Data.List.Perm.Basic
import PoolKeeper.Proofs.Json.Lacking

namespace PoolKeeper.Json

/-! ## Members in another order, and among others -/

mutual
/-- What a value may become: the members of its objects stand in any order, and among further ones
with other names. Only the object under the name `closed` has no further members (`more`). -/
inductive Rearranged (closed : String) : (more : Bool) → Json → Value → Prop
  | same {more : Bool} (x : Json) : Rearranged closed more x x.value
  | object {more : Bool} {own : List (String × Json)} {changed further ms : List (String × Value)}
      (hown : List.Forall₂ (RearrangedMember closed) own changed)
      (hfurther : ∀ m ∈ further, m.1 ∉ own.map Prod.fst) (hmore : more = false → further = [])
      (hms : ms.Perm (changed ++ further)) : Rearranged closed more (.object own) (.object ms)

/-- A member keeps its name. -/
inductive RearrangedMember (closed : String) : String × Json → String × Value → Prop
  | mk {k : String} {x : Json} {v : Value} (h : Rearranged closed (k != closed) x v) :
      RearrangedMember closed (k, x) (k, v)
end

/-- The value without the member at a path of names. -/
inductive Without : List String → Value → Value → Prop
  | here {k : String} {v : Value} {ms ms' : List (String × Value)} :
      Without [k] (.object (ms ++ (k, v) :: ms')) (.object (ms ++ ms'))
  | there {k : String} {path : List String} {v v' : Value} {ms ms' : List (String × Value)}
      (h : Without path v v') :
      Without (k :: path) (.object (ms ++ (k, v) :: ms')) (.object (ms ++ (k, v') :: ms'))

/-- The value has a member at a path of names. -/
inductive HasMember : List String → Json → Prop
  | here {k : String} {x : Json} {ms : List (String × Json)} (h : (k, x) ∈ ms) :
      HasMember [k] (.object ms)
  | there {k : String} {path : List String} {x : Json} {ms : List (String × Json)}
      (h : (k, x) ∈ ms) (hx : HasMember path x) : HasMember (k :: path) (.object ms)

/-- The members of an object. -/
def members : Json → List (String × Json)
  | .object ms => ms
  | _ => []

/-- There is nothing to rearrange in the value. -/
def IsPlain : Json → Prop
  | .object _ => False
  | _ => True

variable {closed : String} {more : Bool} {own : List (String × Json)} {x : Json} {v : Value}

theorem HasMember.not_isPlain {path : List String} (h : HasMember path x) : ¬ x.IsPlain := by
  cases h with
  | here => exact id
  | there => exact id

/-- Where no member has members of its own, paths are names. -/
theorem HasMember.eq_singleton {path : List String} (h : HasMember path x)
    (hplain : ∀ m ∈ x.members, m.2.IsPlain) : ∃ k ∈ x.members.map Prod.fst, path = [k] := by
  cases h with
  | @here k _ _ hm => exact ⟨k, List.mem_map_of_mem hm, rfl⟩
  | there hm hx => exact absurd (hplain _ hm) hx.not_isPlain

namespace Rearranged

theorem eq_value (h : Rearranged closed more x v) (hx : x.IsPlain) : v = x.value := by
  cases h with
  | same => rfl
  | object => exact hx.elim

theorem exists_members (h : Rearranged closed more (.object own) v) :
    ∃ changed further ms, v = .object ms ∧ List.Forall₂ (RearrangedMember closed) own changed ∧
      (∀ m ∈ further, m.1 ∉ own.map Prod.fst) ∧ (more = false → further = []) ∧
      ms.Perm (changed ++ further) := by
  cases h with
  | same =>
    refine ⟨own.map fun m => (m.1, m.2.value), [], own.map fun m => (m.1, m.2.value), ?_, ?_,
      nofun, fun _ => rfl, by rw [List.append_nil]⟩
    · rw [value, memberValues_eq_map]
    · rw [List.forall₂_map_right_iff, List.forall₂_same]
      exact fun m _ => .mk (.same m.2)
  | object hown hfurther hmore hms =>
    exact ⟨_, _, _, rfl, hown, hfurther, hmore, hms⟩

/-- Without further members there are the entries of before, in some order. -/
theorem exists_entries {β : Type} {entries : List β} {member : β → String × Json}
    (h : Rearranged closed false (.object (entries.map member)) v) :
    ∃ es ms, v = .object ms ∧ es.Perm entries ∧
      List.Forall₂ (fun m e => RearrangedMember closed (member e) m) ms es := by
  obtain ⟨changed, further, ms, rfl, hown, -, hmore, hms⟩ := h.exists_members
  rw [hmore rfl, List.append_nil] at hms
  obtain ⟨es, hes, hperm⟩ := List.perm_comp_forall₂ hms (List.forall₂_map_left_iff.1 hown).flip
  exact ⟨es, ms, rfl, hperm, hes⟩

end Rearranged

theorem exists_mem_of_forall₂ {α β : Type} {R : α → β → Prop} {as : List α} {bs : List β}
    (h : List.Forall₂ R as bs) {a : α} (ha : a ∈ as) : ∃ b ∈ bs, R a b := by
  induction h with
  | nil => cases ha
  | cons hfirst _ ih =>
    rcases List.mem_cons.1 ha with rfl | ha
    · exact ⟨_, List.mem_cons_self, hfirst⟩
    · obtain ⟨b, hb, hrest⟩ := ih ha
      exact ⟨b, List.mem_cons_of_mem _ hb, hrest⟩

namespace RearrangedMember
variable {changed : List (String × Value)}

theorem names_eq (h : List.Forall₂ (RearrangedMember closed) own changed) :
    changed.map Prod.fst = own.map Prod.fst := by
  induction h with
  | nil => rfl
  | cons hm _ ih =>
    obtain ⟨-⟩ := hm
    rw [List.map_cons, List.map_cons, ih]

theorem exists_of_mem (h : List.Forall₂ (RearrangedMember closed) own changed)
    {m : String × Json} (hm : m ∈ own) :
    ∃ v, (m.1, v) ∈ changed ∧ Rearranged closed (m.1 != closed) m.2 v := by
  obtain ⟨m', hm', ⟨hv⟩⟩ := exists_mem_of_forall₂ h hm
  exact ⟨_, hm', hv⟩

end RearrangedMember

/-- Members among which are those of an object, each of them once. -/
structure Holds (closed : String) (own : List (String × Json)) (ms : List (String × Value)) :
    Prop where
  nodup : ((ms.map Prod.fst).filter ((own.map Prod.fst).contains ·)).Nodup
  found : ∀ m ∈ own, ∃ v, (m.1, v) ∈ ms ∧ Rearranged closed (m.1 != closed) m.2 v

theorem Rearranged.holds (h : Rearranged closed more (.object own) v)
    (hkeys : (own.map Prod.fst).Nodup) : ∃ ms, v = .object ms ∧ Holds closed own ms := by
  obtain ⟨changed, further, ms, rfl, hown, hfurther, -, hms⟩ := h.exists_members
  refine ⟨ms, rfl, ((hms.map _).filter _).nodup_iff.2 ?_, fun m hm => ?_⟩
  · have hnone : (further.map Prod.fst).filter ((own.map Prod.fst).contains ·) = [] := by
      refine List.filter_eq_nil_iff.2 fun k hk => ?_
      obtain ⟨m, hm, rfl⟩ := List.mem_map.1 hk
      simpa using hfurther m hm
    rw [List.map_append, RearrangedMember.names_eq hown, List.filter_append, hnone,
      List.append_nil]
    exact hkeys.filter _
  · obtain ⟨v, hv, h⟩ := RearrangedMember.exists_of_mem hown hm
    exact ⟨v, hms.mem_iff.2 (List.mem_append_left _ hv), h⟩

/-! ## Look-ups -/

section LookUp
variable {α : Type} {k k' : String} {a b : α} {xs ys : List (String × α)}

theorem lookup_eq_none (h : k ∉ xs.map Prod.fst) : xs.lookup k = none := by
  refine List.lookup_eq_none_iff.2 fun m hm => ?_
  rw [bne_iff_ne]
  rintro rfl
  exact h (List.mem_map_of_mem hm)

theorem lookup_middle (h : k ∉ xs.map Prod.fst) : (xs ++ (k, a) :: ys).lookup k = some a := by
  rw [List.lookup_append, lookup_eq_none h, Option.none_or, List.lookup_cons, beq_self_eq_true]

/-- A member is not found under another name. -/
theorem lookup_other (h : k' ≠ k) : (xs ++ (k, a) :: ys).lookup k' = (xs ++ ys).lookup k' := by
  rw [List.lookup_append, List.lookup_append, List.lookup_cons, beq_eq_false_iff_ne.2 h]

end LookUp

/-- The members as a reader sees them. -/
abbrev seen (ms : List (String × Value)) : List (String × Tree) := ms.map fun m => (m.1, m.2.tree)

theorem seen_middle (ms : List (String × Value)) (k : String) (v : Value)
    (ms' : List (String × Value)) :
    seen (ms ++ (k, v) :: ms') = seen ms ++ (k, v.tree) :: seen ms' := by
  rw [seen, List.map_append, List.map_cons]

theorem map_fst_seen (ms : List (String × Value)) : (seen ms).map Prod.fst = ms.map Prod.fst := by
  rw [List.map_map]
  rfl

theorem not_faulty_of_mem_seen {ms : List (String × Value)} {m : String × Tree} (h : m ∈ seen ms) :
    m.2.faulty = false := by
  obtain ⟨m, -, rfl⟩ := List.mem_map.1 h
  exact m.2.faulty_tree

/-- Under the name of the member there is what it has become. -/
def Shows (closed : String) (value? : String → Option Tree) (m : String × Json) : Prop :=
  ∃ v : Value, value? m.1 = some v.tree ∧ Rearranged closed (m.1 != closed) m.2 v

theorem Shows.of_isPlain {value? : String → Option Tree} {k : String}
    (h : Shows closed value? (k, x)) (hx : x.IsPlain) (hfits : x.Fits) :
    value? k = some x.tree := by
  obtain ⟨v, hv, hsame⟩ := h
  rw [hv, hsame.eq_value hx, tree_value x hfits]

namespace Holds
variable {k : String} {ms ms' : List (String × Value)}

/-- A member of the object has its name to itself. -/
theorem not_mem (h : Holds closed own (ms ++ (k, v) :: ms')) (hk : k ∈ own.map Prod.fst) :
    k ∉ (ms ++ ms').map Prod.fst := by
  have hnodup := h.nodup
  rw [List.map_append, List.map_cons, List.filter_append,
    List.filter_cons_of_pos (by simpa using hk), List.nodup_middle, ← List.filter_append,
    ← List.map_append] at hnodup
  exact fun hmem => (List.nodup_cons.1 hnodup).1 (List.mem_filter.2 ⟨hmem, by simpa using hk⟩)

theorem not_mem_left (h : Holds closed own (ms ++ (k, v) :: ms')) (hk : k ∈ own.map Prod.fst) :
    k ∉ (seen ms).map Prod.fst := by
  rw [map_fst_seen]
  refine fun hmem => h.not_mem hk ?_
  rw [List.map_append]
  exact List.mem_append_left _ hmem

theorem rearranged (h : Holds closed own (ms ++ (k, v) :: ms')) (hk : (k, x) ∈ own) :
    Rearranged closed (k != closed) x v := by
  obtain ⟨u, hu, hsame⟩ := h.found _ hk
  have hother : (k, u) ∉ ms ++ ms' := fun hmem =>
    h.not_mem (List.mem_map_of_mem hk) (List.mem_map_of_mem hmem)
  have heq : (k, u) = (k, v) := by
    by_contra hne
    rcases List.mem_append.1 hu with hmem | hmem
    · exact hother (List.mem_append_left _ hmem)
    · exact hother (List.mem_append_right _ (List.mem_of_ne_of_mem hne hmem))
  rw [← (Prod.mk.inj heq).2]
  exact hsame

theorem shows (h : Holds closed own ms) {m : String × Json} (hm : m ∈ own) :
    Shows closed ((seen ms).lookup ·) m := by
  obtain ⟨v, hv, hsame⟩ := h.found m hm
  obtain ⟨before, after, rfl⟩ := List.append_of_mem hv
  refine ⟨v, ?_, hsame⟩
  show (seen (before ++ (m.1, v) :: after)).lookup m.1 = _
  rw [seen_middle, lookup_middle (h.not_mem_left (List.mem_map_of_mem hm))]

end Holds

/-! ## Records -/

section Records
variable {α : Type} {r : FieldReader α} {a : α} {k : String} {v' : Value}
  (hnames : own.map Prod.fst = r.names) (hnodup : r.names.Nodup)
  (h : Rearranged closed more (.object own) v)
include hnames hnodup h

/-- **A record is read from its members in any order and among others.** -/
theorem record_reads_of_rearranged
    (hr : ∀ value?, (∀ m ∈ own, Shows closed value? m) → r.Reads value? a) :
    (record r).Reads v.tree a := by
  obtain ⟨ms, rfl, hms⟩ := h.holds (hnames ▸ hnodup)
  rw [Value.tree_object]
  refine record_reads ?_ (fun m hm _ => not_faulty_of_mem_seen hm) (hr _ fun m hm => hms.shows hm)
  rw [map_fst_seen, ← hnames]
  exact hms.nodup

/-- **A record without a field that it requires is a misfit.** -/
theorem record_lacking_of_rearranged {required : List String}
    (hr : ∀ value?, (∀ m ∈ own, Shows closed value? m) → r.Takes value? a required)
    (hk : k ∈ required) (hw : Without [k] v v') : (record r).MisfitAt v'.tree [] := by
  obtain ⟨ms, rfl, hms⟩ := h.holds (hnames ▸ hnodup)
  have htakes := hr _ fun m hm => hms.shows hm
  cases hw with
  | @here _ v before after =>
    rw [Value.tree_object]
    refine record_misfit ?_ (fun m hm _ => not_faulty_of_mem_seen hm)
      (htakes.lacking hnodup k hk _ ?_ fun other hother => ?_)
    · rw [map_fst_seen, ← hnames]
      refine hms.nodup.sublist ((List.Sublist.map _ ?_).filter _)
      exact (List.sublist_cons_self _ _).append_left before
    · exact lookup_eq_none (by rw [map_fst_seen]; exact hms.not_mem (hnames ▸ htakes.known hk))
    · show (seen (before ++ after)).lookup other = (seen (before ++ (k, v) :: after)).lookup other
      rw [seen_middle, lookup_other hother, seen, List.map_append]
  | there hnone => cases hnone

/-- **A record is a misfit where a member of it has become one.** -/
theorem record_misfit_of_rearranged {path : List String} {place : Path} (hk : (k, x) ∈ own)
    (hpath : path ≠ [])
    (hr : ∀ value? u u', (∀ m ∈ own, m.1 ≠ k → Shows closed value? m) →
      Rearranged closed (k != closed) x u → Without path u u' → value? k = some u'.tree →
        r.MisfitAt value? place)
    (hw : Without (k :: path) v v') : (record r).MisfitAt v'.tree place := by
  obtain ⟨ms, rfl, hms⟩ := h.holds (hnames ▸ hnodup)
  cases hw with
  | here => exact absurd rfl hpath
  | @there _ _ u u' before after hu =>
    have hnone := hms.not_mem_left (List.mem_map_of_mem hk)
    have hothers : ∀ m ∈ own, m.1 ≠ k →
        Shows closed ((seen (before ++ (k, u') :: after)).lookup ·) m := by
      intro m hm hne
      obtain ⟨w, hw, hsame⟩ := hms.shows hm
      refine ⟨w, ?_, hsame⟩
      rw [← hw, seen_middle, seen_middle]
      show (seen before ++ (k, u'.tree) :: seen after).lookup m.1
        = (seen before ++ (k, u.tree) :: seen after).lookup m.1
      rw [lookup_other hne, lookup_other hne]
    rw [Value.tree_object]
    refine record_misfit ?_ (fun m hm _ => not_faulty_of_mem_seen hm)
      (hr _ u u' hothers (hms.rearranged hk) hu ?_)
    · have hkeys : (before ++ (k, u') :: after).map Prod.fst
          = (before ++ (k, u) :: after).map Prod.fst := by
        rw [List.map_append, List.map_append, List.map_cons, List.map_cons]
      rw [map_fst_seen, ← hnames, hkeys]
      exact hms.nodup
    · show (seen (before ++ (k, u') :: after)).lookup k = some u'.tree
      rw [seen_middle, lookup_middle hnone]

end Records

end PoolKeeper.Json
