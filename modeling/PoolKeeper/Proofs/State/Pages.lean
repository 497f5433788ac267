/-
Pages tile what is to be read, each of them full but perhaps the last, and no
other list of pages does (`pages_tile`). So they cut a list without loss: the
slices at their offsets, one after the other, are the list
(`flatMap_slice_pages`).

Offsets are found by steps and limits from what is left, apart from each other.
That an offset is where the page before it ends is `tiles_steps`, by induction on
the steps: a full page ends where the step goes to, and a page that is not full
ends at the end, which a step goes past, if 64 bits hold it at all.
-/
import Mathlib.Data.List.Chain
import PoolKeeper.State.Build

namespace PoolKeeper.Snapshot.Build
variable {α : Type} {xs : List α}

/-- The records of a list from an offset on, as many as are asked for. -/
def slice (xs : List α) (offset limit : UInt64) : List α :=
  (xs.drop offset.toNat).take limit.toNat

/-! ## Tilings -/

/-- Offsets and limits that cut `start..stop` into pages, without a gap or an overlap. Offsets and
ends are exact numbers here, so none of them is beyond what 64 bits hold. -/
structure Tiles (pageSize start stop : Nat) (ps : List (UInt64 × UInt64)) : Prop where
  /-- The first page begins at the start. -/
  first : ∀ p ∈ ps.head?, p.1.toNat = start
  /-- A page begins where the one before it ends. -/
  next : ps.IsChain fun p q => q.1.toNat = p.1.toNat + p.2.toNat
  limit : ∀ p ∈ ps, 1 ≤ p.2.toNat ∧ p.2.toNat ≤ pageSize
  /-- Only the last page may be shorter than the others. -/
  full : ∀ p ∈ ps.dropLast, p.2.toNat = pageSize
  /-- The last page ends at the end. -/
  last : ∀ p ∈ ps.getLast?, p.1.toNat + p.2.toNat = stop
  eq_nil_iff : ps = [] ↔ start = stop
  within : ∀ p ∈ ps, p.1.toNat + p.2.toNat ≤ stop

namespace Tiles
variable {pageSize start stop : Nat} {p : UInt64 × UInt64} {ps qs : List (UInt64 × UInt64)}

theorem nil (pageSize stop : Nat) : Tiles pageSize stop stop [] where
  first := by simp
  next := .nil
  limit := by simp
  full := by simp
  last := by simp
  eq_nil_iff := by simp
  within := by simp

/-- A page in front of a tiling, as long as there is room. -/
theorem cons (hstart : p.1.toNat = start) (hlimit : p.2.toNat = min pageSize (stop - start))
    (hpos : 0 < p.2.toNat) (h : Tiles pageSize (start + p.2.toNat) stop ps) :
    Tiles pageSize start stop (p :: ps) where
  first := by simpa using hstart
  next := by
    refine List.isChain_cons.2 ⟨fun q hq => ?_, h.next⟩
    rw [h.first q hq, hstart]
  limit := by
    refine List.forall_mem_cons.2 ⟨?_, h.limit⟩
    omega
  full := by
    cases ps with
    | nil => simp
    | cons q ps =>
      -- what is left for `q` shows that there was room for a whole page
      have hleft : start + p.2.toNat ≠ stop := fun hend => nomatch h.eq_nil_iff.2 hend
      refine List.forall_mem_cons.2 ⟨?_, h.full⟩
      omega
  last := by
    cases ps with
    | nil =>
      have hend := h.eq_nil_iff.1 rfl
      simp only [List.getLast?_singleton, Option.mem_some, forall_eq']
      omega
    | cons q ps => exact h.last
  eq_nil_iff := by
    refine ⟨nofun, fun hend => ?_⟩
    omega
  within := by
    refine List.forall_mem_cons.2 ⟨?_, h.within⟩
    omega

/-- What a tiling begins with. -/
theorem of_cons (h : Tiles pageSize start stop (p :: ps)) :
    p.1.toNat = start ∧ p.2.toNat = min pageSize (stop - start) ∧
      Tiles pageSize (start + p.2.toNat) stop ps := by
  have hstart : p.1.toNat = start := h.first p rfl
  have hwithin := h.within p List.mem_cons_self
  have hlimit := h.limit p List.mem_cons_self
  cases ps with
  | nil =>
    have hlast : p.1.toNat + p.2.toNat = stop := h.last p rfl
    refine ⟨hstart, by omega, ?_⟩
    rw [← hstart, hlast]
    exact nil pageSize stop
  | cons q ps =>
    have hfull : p.2.toNat = pageSize := h.full p List.mem_cons_self
    have hchain := List.isChain_cons_cons.1 h.next
    have hq := h.within q (by simp)
    have hpos := h.limit q (by simp)
    refine ⟨hstart, by omega, ?_⟩
    exact {
      first := by simpa [← hstart] using hchain.1
      next := hchain.2
      limit := fun r hr => h.limit r (List.mem_cons_of_mem p hr)
      full := fun r hr => h.full r (List.mem_cons_of_mem p hr)
      last := h.last
      eq_nil_iff := ⟨nofun, fun hend => by omega⟩
      within := fun r hr => h.within r (List.mem_cons_of_mem p hr) }

/-- There is only one tiling. -/
theorem unique (hps : Tiles pageSize start stop ps) (hqs : Tiles pageSize start stop qs) :
    ps = qs := by
  induction ps generalizing start qs with
  | nil => exact (hqs.eq_nil_iff.2 (hps.eq_nil_iff.1 rfl)).symm
  | cons p ps ih =>
    cases qs with
    | nil => exact hps.eq_nil_iff.2 (hqs.eq_nil_iff.1 rfl)
    | cons q qs =>
      obtain ⟨hstart, hlimit, hrest⟩ := hps.of_cons
      obtain ⟨hstart', hlimit', hrest'⟩ := hqs.of_cons
      have hpage : p = q := Prod.ext (UInt64.toNat_inj.1 (by rw [hstart, hstart']))
        (UInt64.toNat_inj.1 (by rw [hlimit, hlimit']))
      subst hpage
      rw [ih hrest hrest']

end Tiles

/-! ## Pages -/

section Steps
variable {step stop start : UInt64}

theorem toNat_min (a b : UInt64) : (min a b).toNat = min a.toNat b.toNat := by
  rw [UInt64.min_def]
  split <;> rename_i h <;> rw [UInt64.le_iff_toNat_le] at h <;> omega

theorem steps_of_le (h : stop ≤ start) : steps step stop start = [] := by
  rw [steps, if_neg (UInt64.not_lt.2 h)]

/-- **One step** goes to a number up to the end, or else past the end, or even past the largest
number. Then there is no other. -/
theorem steps_cons (hstep : 1 ≤ step) (h : start < stop) :
    ((start + step).toNat = start.toNat + step.toNat ∧ start < start + step ∧
      start + step ≤ stop ∧ steps step stop start = start :: steps step stop (start + step)) ∨
    (stop.toNat < start.toNat + step.toNat ∧ steps step stop start = [start]) := by
  have hstop := stop.toNat_lt
  have hsize := step.toNat_lt
  rw [UInt64.le_iff_toNat_le, UInt64.toNat_one] at hstep
  rw [steps, if_pos h]
  by_cases hnext : start < start + step
  · have hsum : (start + step).toNat = start.toNat + step.toNat := by
      rw [UInt64.lt_iff_toNat_lt, UInt64.toNat_add] at hnext
      rw [UInt64.toNat_add]
      omega
    rw [dif_pos hnext]
    by_cases hroom : start + step ≤ stop
    · exact .inl ⟨hsum, hnext, hroom, rfl⟩
    · rw [UInt64.not_le] at hroom
      rw [steps_of_le (UInt64.le_of_lt hroom)]
      rw [UInt64.lt_iff_toNat_lt, hsum] at hroom
      exact .inr ⟨hroom, rfl⟩
  · rw [dif_neg hnext]
    rw [UInt64.lt_iff_toNat_lt, UInt64.toNat_add] at hnext
    exact .inr ⟨by omega, rfl⟩

/-- **The steps up to an end begin the pages that tile what lies before it.** -/
theorem tiles_steps (hstep : 1 ≤ step) (hle : start ≤ stop) :
    Tiles step.toNat start.toNat stop.toNat
      ((steps step stop start).map fun offset => (offset, min step (stop - offset))) := by
  have hpos : 1 ≤ step.toNat := UInt64.le_iff_toNat_le.1 hstep
  induction start using steps.induct step stop with
  | case1 start hlt ih =>
    have hlimit : (min step (stop - start)).toNat = min step.toNat (stop.toNat - start.toNat) := by
      rw [toNat_min, UInt64.toNat_sub_of_le _ _ hle]
    have hbefore := UInt64.lt_iff_toNat_lt.1 hlt
    have hsome : 0 < (min step (stop - start)).toNat := by omega
    obtain ⟨hsum, hnext, hroom, hsteps⟩ | ⟨hpast, hsteps⟩ := steps_cons hstep hlt
    · have hfull : start.toNat + (min step (stop - start)).toNat = (start + step).toNat := by
        rw [UInt64.le_iff_toNat_le] at hroom
        omega
      rw [hsteps, List.map_cons]
      refine .cons rfl hlimit hsome ?_
      rw [hfull]
      exact ih hnext hroom
    · have hend : start.toNat + (min step (stop - start)).toNat = stop.toNat := by omega
      rw [hsteps, List.map_singleton]
      refine .cons rfl hlimit hsome ?_
      rw [hend]
      exact .nil _ _
  | case2 start hnot =>
    rw [steps_of_le (UInt64.not_lt.1 hnot), UInt64.le_antisymm hle (UInt64.not_lt.1 hnot)]
    exact .nil _ _

end Steps

variable {count pageSize : UInt64}

theorem tiles_pages (h : 1 ≤ pageSize) :
    Tiles pageSize.toNat 0 count.toNat (pages count pageSize) := by
  have hmax : max pageSize 1 = pageSize := by
    rw [UInt64.max_def]
    split
    · rename_i hle
      exact UInt64.le_antisymm h hle
    · rfl
  rw [pages, hmax]
  exact tiles_steps h UInt64.zero_le

/-- **The pages tile what is to be read**, and nothing else does: they follow each other from 0 to
the count, all of them full but perhaps the last, and there are none if there is nothing to read. -/
theorem pages_tile {count pageSize : UInt64} (h : 1 ≤ pageSize) :
    Tiles pageSize.toNat 0 count.toNat (pages count pageSize) ∧
      ∀ ps, Tiles pageSize.toNat 0 count.toNat ps → ps = pages count pageSize :=
  ⟨tiles_pages h, fun _ hps => hps.unique (tiles_pages h)⟩

/-- Two pages up to the largest number of 64 bits: behind the second there is no room for a
third. -/
theorem pages_to_largest :
    (1 : UInt64) ≤ 0x8000000000000000 ∧
    Tiles 0x8000000000000000 0 0xffffffffffffffff
      (pages 0xffffffffffffffff 0x8000000000000000) ∧
    pages 0xffffffffffffffff 0x8000000000000000 =
      [(0, 0x8000000000000000), (0x8000000000000000, 0x7fffffffffffffff)] :=
  ⟨by decide, (@pages_tile 0xffffffffffffffff 0x8000000000000000 (by decide)).1, by cbv⟩

example : pages 5 2 = [(0, 2), (2, 2), (4, 1)] := by cbv

/-! ## Slices -/

theorem Tiles.flatMap_slice {size start : Nat} {ps : List (UInt64 × UInt64)}
    (h : Tiles size start xs.length ps) :
    (ps.flatMap fun p => slice xs p.1 p.2) = xs.drop start := by
  induction ps generalizing start with
  | nil => rw [h.eq_nil_iff.1 rfl, List.drop_length, List.flatMap_nil]
  | cons p ps ih =>
    obtain ⟨hstart, -, hrest⟩ := h.of_cons
    rw [List.flatMap_cons, ih hrest, slice, hstart, ← List.drop_drop, List.take_append_drop]

/-- **The pages of a list are the list.** -/
theorem flatMap_slice_pages (hfits : xs.length < 2 ^ 64) (hpos : 0 < pageSize.toNat) :
    ((pages (.ofNat xs.length) pageSize).flatMap fun p => slice xs p.1 p.2) = xs := by
  have hone : 1 ≤ pageSize := UInt64.le_iff_toNat_le.2 hpos
  have htiles : Tiles pageSize.toNat 0 (UInt64.ofNat xs.length).toNat
      (pages (.ofNat xs.length) pageSize) := tiles_pages hone
  rw [UInt64.toNat_ofNat_of_lt' hfits] at htiles
  exact htiles.flatMap_slice

end PoolKeeper.Snapshot.Build
