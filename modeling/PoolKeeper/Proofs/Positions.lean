/-
Maps that tell where the items of a list stand, by a key of the items.

`Locates` is for keys that no two items share, `Groups` for keys that they may.
Each is kept when an item is added to the list and its position to the map
(`concat`), and by each a look-up finds what a search through the list would
(`Locates.bind_getElem?`, `Groups.filterMap_getElem?`).
-/
import PoolKeeper.KeyMap

namespace PoolKeeper
variable {α : Type} {n : Nat} {key : α → FixedBytes n} {xs : List α}

theorem KeyMap.get?_empty (k : FixedBytes n) : (KeyMap.empty : KeyMap n α).get? k = none := rfl

/-- A position at which there is something stays that of the same item. -/
theorem getElem?_concat_of_eq_some {i : Nat} {x : α} (h : xs[i]? = some x) (y : α) :
    (xs ++ [y])[i]? = some x := by
  obtain ⟨hlt, -⟩ := List.getElem?_eq_some_iff.1 h
  rw [List.getElem?_append_left hlt, h]

theorem find?_eq_none_of_key {k : FixedBytes n} (h : k ∉ xs.map key) :
    xs.find? (key · = k) = none := by
  refine List.find?_eq_none.2 fun x hx => ?_
  rw [decide_eq_true_iff]
  rintro rfl
  exact h (List.mem_map_of_mem hx)

/-- A key is at the position of the item that has it, and at none if no item has. -/
def Locates (positions : KeyMap n Nat) (key : α → FixedBytes n) (xs : List α) : Prop :=
  ∀ k, (positions.get? k).map (xs[·]?) = (xs.find? (key · = k)).map some

/-- A key is at the positions of the items that have it, in their order. -/
def Groups (positions : KeyMap n (List Nat)) (key : α → FixedBytes n) (xs : List α) : Prop :=
  ∀ k, ((positions.get? k).getD []).map (xs[·]?) = (xs.filter (key · = k)).map some

namespace Locates
variable {positions : KeyMap n Nat}

theorem empty : Locates KeyMap.empty key ([] : List α) := fun _ => rfl

/-- A look-up finds what a search finds. -/
theorem bind_getElem? (h : Locates positions key xs) (k : FixedBytes n) :
    (positions.get? k).bind (xs[·]?) = xs.find? (key · = k) := by
  have hk := h k
  cases hi : positions.get? k <;> cases hx : xs.find? (key · = k) <;> simp_all

theorem contains_iff (h : Locates positions key xs) (k : FixedBytes n) :
    positions.contains k = true ↔ k ∈ xs.map key := by
  have hk := congrArg Option.isSome (h k)
  rw [Option.isSome_map, Option.isSome_map] at hk
  rw [KeyMap.contains, hk, List.find?_isSome]
  simp [eq_comm]

theorem concat (h : Locates positions key xs) {x : α} (hx : key x ∉ xs.map key) :
    Locates (positions.insert (key x) xs.length) key (xs ++ [x]) := by
  intro k
  rw [List.find?_append]
  by_cases hk : k = key x
  · subst hk
    rw [KeyMap.get?_insert_self, find?_eq_none_of_key hx]
    simp
  · rw [KeyMap.get?_insert_other _ hk]
    have hnone : [x].find? (key · = k) = none := by simp [Ne.symm hk]
    rw [hnone, Option.or_none, ← h k]
    have hfound := h k
    cases hi : positions.get? k with
    | none => rfl
    | some i =>
      rw [hi, Option.map_some] at hfound
      obtain ⟨y, -, hy⟩ := Option.map_eq_some_iff.1 hfound.symm
      rw [Option.map_some, Option.map_some, ← hy, getElem?_concat_of_eq_some hy.symm]

end Locates

namespace Groups
variable {positions : KeyMap n (List Nat)}

theorem empty : Groups KeyMap.empty key ([] : List α) := fun _ => rfl

theorem filterMap_getElem? (h : Groups positions key xs) (k : FixedBytes n) :
    ((positions.get? k).getD []).filterMap (xs[·]?) = xs.filter (key · = k) := by
  have hk := congrArg (List.filterMap id) (h k)
  rw [List.filterMap_map, List.filterMap_map] at hk
  simpa using hk

theorem concat (h : Groups positions key xs) (x : α) :
    Groups (positions.insert (key x) ((positions.get? (key x)).getD [] ++ [xs.length])) key
      (xs ++ [x]) := by
  -- the positions that were there lead to the items that they led to before
  have hold : ∀ k, ((positions.get? k).getD []).map ((xs ++ [x])[·]?) =
      (xs.filter (key · = k)).map some := by
    intro k
    rw [← h k]
    refine List.map_congr_left fun i hi => ?_
    have hmem : xs[i]? ∈ (xs.filter (key · = k)).map some := h k ▸ List.mem_map_of_mem hi
    obtain ⟨y, -, hy⟩ := List.mem_map.1 hmem
    rw [← hy, getElem?_concat_of_eq_some hy.symm]
  intro k
  rw [List.filter_append]
  by_cases hk : k = key x
  · subst hk
    rw [KeyMap.get?_insert_self, Option.getD_some, List.map_append, List.map_append, hold]
    simp
  · rw [KeyMap.get?_insert_other _ hk, hold]
    simp [Ne.symm hk]

end Groups
end PoolKeeper
