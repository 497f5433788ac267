/-
Facts about maps by key: their keys ascend, so the look-ups alone say which
keys there are and in which order (`keys_eq`), and determine the map (`ext`).
Entries with distinct keys make a map of just these entries, put in order
(`entries_ofList_perm`).
-/
import Mathlib.Data.List.Induction
import Mathlib.Data.List.Sort
import PoolKeeper.KeyMap

namespace PoolKeeper

instance {n : Nat} : Std.Irrefl (fun a b : FixedBytes n => a < b) := ⟨FixedBytes.lt_irrefl⟩

instance {n : Nat} : Std.Antisymm (fun a b : FixedBytes n => a < b) :=
  ⟨fun a _ h h' => absurd (FixedBytes.lt_trans h h') (FixedBytes.lt_irrefl a)⟩

namespace KeyMap
variable {n : Nat} {α β : Type}

theorem ascending_keys (m : KeyMap n α) : m.keys.Pairwise (fun a b => a < b) :=
  List.pairwise_map.2 m.ascending

theorem mem_keys {m : KeyMap n α} {k : FixedBytes n} : k ∈ m.keys ↔ ∃ v, m.get? k = some v := by
  simp only [keys, List.mem_map, get?_eq_some_iff]
  constructor
  · rintro ⟨⟨_, v⟩, hm, rfl⟩
    exact ⟨v, hm⟩
  · rintro ⟨v, hm⟩
    exact ⟨(k, v), hm, rfl⟩

/-- Maps in which the same keys are found list the same keys. -/
theorem keys_eq {m : KeyMap n α} {m' : KeyMap n β}
    (h : ∀ k, (∃ v, m.get? k = some v) ↔ ∃ v, m'.get? k = some v) : m.keys = m'.keys :=
  m.ascending_keys.eq_of_mem_iff m'.ascending_keys fun k => by rw [mem_keys, mem_keys, h]

theorem nodup_keys (m : KeyMap n α) : m.keys.Nodup :=
  m.ascending_keys.nodup

/-- **The look-ups determine the map.** -/
theorem ext {m m' : KeyMap n α} (h : ∀ k, m.get? k = m'.get? k) : m = m' := by
  have hirrefl : Std.Irrefl (fun a b : FixedBytes n × α => a.1 < b.1) :=
    ⟨fun a => FixedBytes.lt_irrefl a.1⟩
  have hanti : Std.Antisymm (fun a b : FixedBytes n × α => a.1 < b.1) :=
    ⟨fun a _ hab hba => absurd (FixedBytes.lt_trans hab hba) (FixedBytes.lt_irrefl a.1)⟩
  refine entries_inj (m.ascending.eq_of_mem_iff m'.ascending fun e => ?_)
  rw [← get?_eq_some_iff (k := e.1) (v := e.2), h, get?_eq_some_iff]

/-- The entries under one key: the one that is found, or none. -/
theorem filter_entries (m : KeyMap n α) (k : FixedBytes n) :
    m.entries.filter (·.1 = k) = ((m.get? k).map (k, ·)).toList := by
  obtain ⟨es, hes⟩ := m
  show es.filter (·.1 = k) = ((find k es).map (k, ·)).toList
  induction es with
  | nil => rfl
  | cons e es ih =>
    obtain ⟨hfirst, hrest⟩ := List.pairwise_cons.1 hes
    rw [find]
    by_cases he : e.1 = k
    · have hnone : es.filter (·.1 = k) = [] := by
        refine List.filter_eq_nil_iff.2 fun x hx => ?_
        rw [decide_eq_true_iff]
        intro hxk
        exact FixedBytes.lt_irrefl k (by simpa [he, hxk] using hfirst x hx)
      rw [List.filter_cons_of_pos (by simpa using he), if_pos he, hnone, ← he]
      rfl
    · rw [List.filter_cons_of_neg (by simpa using he), if_neg he, ih hrest]

theorem get?_mapValues (m : KeyMap n α) (f : FixedBytes n → α → β) (k : FixedBytes n) :
    (m.mapValues f).get? k = (m.get? k).map (f k) := by
  have key : ∀ es : List (FixedBytes n × α),
      find k (es.map fun e => (e.1, f e.1 e.2)) = (find k es).map (f k) := by
    intro es
    induction es with
    | nil => rfl
    | cons e es ih =>
      rw [List.map_cons, find, find, ih]
      by_cases he : e.1 = k
      · simp [he]
      · simp [he]
  exact key m.entries

theorem get?_filter_eq_some_iff {m : KeyMap n α} {p : FixedBytes n → α → Bool} {k : FixedBytes n}
    {v : α} : (m.filter p).get? k = some v ↔ m.get? k = some v ∧ p k v = true := by
  rw [get?_eq_some_iff, get?_eq_some_iff, filter, List.mem_filter]

/-! ## Maps made of entries -/

/-- A key that is not there yet gets an entry of its own. -/
theorem put_perm {k : FixedBytes n} {v : α} {es : List (FixedBytes n × α)}
    (h : k ∉ es.map (·.1)) : (put k v es).Perm ((k, v) :: es) := by
  induction es with
  | nil => exact .refl _
  | cons e es ih =>
    obtain ⟨hne, hrest⟩ := not_or.1 (mt List.mem_cons.2 h)
    rw [put]
    split
    · exact .refl _
    · split
      · exact ((ih hrest).cons e).trans (.swap (k, v) e es)
      · rename_i hlt hgt
        exact absurd (FixedBytes.eq_of_not_lt hlt hgt) hne

theorem foldl_insert_perm (es : List (FixedBytes n × α)) (m : KeyMap n α)
    (h : ((es ++ m.entries).map (·.1)).Nodup) :
    (es.foldl (fun m e => m.insert e.1 e.2) m).entries.Perm (es ++ m.entries) := by
  induction es generalizing m with
  | nil => exact .refl _
  | cons e es ih =>
    have hfresh : e.1 ∉ m.entries.map (·.1) := fun hmem => by
      rw [List.cons_append, List.map_cons, List.nodup_cons, List.map_append] at h
      exact h.1 (List.mem_append_right _ hmem)
    have hput : (m.insert e.1 e.2).entries.Perm (e :: m.entries) := put_perm hfresh
    have hmove : (es ++ (m.insert e.1 e.2).entries).Perm (e :: (es ++ m.entries)) :=
      (hput.append_left es).trans List.perm_middle
    exact (ih _ ((hmove.map _).nodup_iff.2 h)).trans hmove

/-- **Entries with distinct keys make a map of just these entries.** -/
theorem entries_ofList_perm {es : List (FixedBytes n × α)} (h : (es.map (·.1)).Nodup) :
    (ofList es).entries.Perm es := by
  have hperm := foldl_insert_perm es empty (by simpa [empty] using h)
  rwa [show (empty : KeyMap n α).entries = [] from rfl, List.append_nil] at hperm

theorem get?_ofList_eq_some_iff {es : List (FixedBytes n × α)} (h : (es.map (·.1)).Nodup)
    {k : FixedBytes n} {v : α} : (ofList es).get? k = some v ↔ (k, v) ∈ es := by
  rw [get?_eq_some_iff, (entries_ofList_perm h).mem_iff]

/-- Entries that agree on what is under a key make a map of what they say, even if they repeat
each other. -/
theorem get?_ofList_of_agree {known : FixedBytes n → Option α} {es : List (FixedBytes n × α)}
    (h : ∀ e ∈ es, known e.1 = some e.2) {k : FixedBytes n} {v : α} :
    (ofList es).get? k = some v ↔ known k = some v ∧ k ∈ es.map (·.1) := by
  induction es using List.reverseRecOn with
  | nil => exact iff_of_false nofun (by simp)
  | append_singleton es e ih =>
    have hinsert : ofList (es ++ [e]) = (ofList es).insert e.1 e.2 := List.foldl_append
    have hbefore := ih fun e he => h e (List.mem_append_left _ he)
    have he := h e (by simp)
    rw [hinsert, List.map_append, List.mem_append]
    by_cases hk : k = e.1
    · subst hk
      rw [get?_insert_self, he]
      simp
    · rw [get?_insert_other _ hk, hbefore]
      simp [hk]

/-- Entries with distinct keys make one map in any order. -/
theorem ofList_perm {es es' : List (FixedBytes n × α)} (h : (es.map (·.1)).Nodup)
    (hperm : es.Perm es') : ofList es = ofList es' := by
  refine ext fun k => Option.ext fun v => ?_
  rw [get?_ofList_eq_some_iff h, get?_ofList_eq_some_iff ((hperm.map _).nodup_iff.1 h),
    hperm.mem_iff]

/-- The entries of a map make that map again. -/
theorem ofList_entries (m : KeyMap n α) : ofList m.entries = m := by
  refine ext fun k => Option.ext fun v => ?_
  rw [get?_ofList_eq_some_iff m.nodup_keys, get?_eq_some_iff]

end KeyMap
end PoolKeeper
