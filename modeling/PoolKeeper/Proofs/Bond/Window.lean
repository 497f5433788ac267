/-
When a reduction is ready, and when it is sent: the bounds of its window and the
choice between waiting and forcing, as inequalities between numbers.

A request that stands is before its window, in it or past it (`Pending.classify_eq`),
and while gas is dear it is put off or forced (`decide_eq_force_iff`,
`decide_eq_defer_iff`).
-/
import PoolKeeper.Bond.Window

namespace PoolKeeper

theorem toNat_reducibleBond : reducibleBond.toNat = 16 * 10 ^ 18 := by decide

namespace BondWindow
variable {w : BondWindow} {m : MinipoolDetails} {now e remaining : UInt64} {fee threshold : Word}

theorem toNat_finish (w : BondWindow) :
    w.finish.toNat = min (w.start.toNat + w.length.toNat) (2 ^ 64 - 1) :=
  UInt64Sat.toNat_add _ _

/-- **A reduction is ready inside its window**, neither at its beginning nor at its end. -/
theorem classify_eq_ready_iff :
    w.classify m now = .readyToReduce e ↔
      w.requestTime ≠ 0 ∧ w.cancelled = false ∧ m.nodeDepositBalance = reducibleBond ∧
        m.status = .staking ∧ w.start < e ∧ e < w.finish ∧ e = UInt64Sat.sub now w.requestTime := by
  rw [classify]
  by_cases hrequest : w.requestTime = 0
  · rw [if_pos hrequest]
    exact iff_of_false nofun fun h => h.1 hrequest
  by_cases hcancelled : w.cancelled = true
  · rw [if_neg hrequest, if_pos hcancelled]
    exact iff_of_false nofun fun h => Bool.eq_false_iff.1 h.2.1 hcancelled
  rw [if_neg hrequest, if_neg hcancelled]
  by_cases hout : m.nodeDepositBalance ≠ reducibleBond ∨ m.status ≠ .staking ∨
      w.finish ≤ UInt64Sat.sub now w.requestTime
  · rw [if_pos hout]
    refine iff_of_false nofun ?_
    rintro ⟨-, -, hbond, hstatus, -, hfinish, rfl⟩
    rcases hout with hout | hout | hout
    · exact hout hbond
    · exact hout hstatus
    · exact UInt64.not_lt.2 hout hfinish
  rw [if_neg hout]
  rw [not_or, not_or, Decidable.not_not, Decidable.not_not, UInt64.not_le] at hout
  obtain ⟨hbond, hstatus, hfinish⟩ := hout
  by_cases hstart : w.start < UInt64Sat.sub now w.requestTime
  · rw [if_pos hstart, BondState.readyToReduce.injEq]
    constructor
    · rintro rfl
      exact ⟨hrequest, Bool.eq_false_iff.2 hcancelled, hbond, hstatus, hstart, hfinish, rfl⟩
    · rintro ⟨-, -, -, -, -, -, rfl⟩
      rfl
  · rw [if_neg hstart]
    refine iff_of_false nofun ?_
    rintro ⟨-, -, -, -, hlate, -, rfl⟩
    exact hstart hlate

/-- A request that was made and not called off, for a minipool whose bond can be reduced. -/
structure Pending (w : BondWindow) (m : MinipoolDetails) : Prop where
  requested : w.requestTime ≠ 0
  standing : w.cancelled = false
  bond_eq : m.nodeDepositBalance = reducibleBond
  staking : m.status = .staking

/-- **A request that stands** is before its window, in it or past it. -/
theorem Pending.classify_eq (h : w.Pending m) (now : UInt64) :
    w.classify m now =
      if w.finish ≤ UInt64Sat.sub now w.requestTime then .notEligible
      else if w.start < UInt64Sat.sub now w.requestTime then
        .readyToReduce (UInt64Sat.sub now w.requestTime)
      else .waitingForWindow (w.start - UInt64Sat.sub now w.requestTime) := by
  simp [classify, h.requested, h.standing, h.bond_eq, h.staking]

theorem decide_eq_submit_iff : w.decide e fee threshold = .submit ↔ fee < threshold := by
  rw [decide]
  by_cases hcheap : fee < threshold
  · rw [if_pos hcheap]
    exact iff_of_true rfl hcheap
  rw [if_neg hcheap]
  refine iff_of_false ?_ hcheap
  by_cases hlate : UInt64Sat.sub w.finish e < w.length / 2
  · rw [if_pos hlate]
    exact nofun
  · rw [if_neg hlate]
    exact nofun

/-- **A dear reduction is forced once less than half of the window is left.** -/
theorem decide_eq_force_iff :
    w.decide e fee threshold = .force ↔
      ¬ fee < threshold ∧ w.finish.toNat - e.toNat < w.length.toNat / 2 := by
  have hleft : UInt64Sat.sub w.finish e < w.length / 2 ↔
      w.finish.toNat - e.toNat < w.length.toNat / 2 := by
    rw [UInt64.lt_iff_toNat_lt, UInt64Sat.toNat_sub, UInt64.toNat_div]
    rfl
  rw [decide, ← hleft]
  by_cases hcheap : fee < threshold
  · rw [if_pos hcheap]
    exact iff_of_false nofun fun h => h.1 hcheap
  rw [if_neg hcheap]
  by_cases hlate : UInt64Sat.sub w.finish e < w.length / 2
  · rw [if_pos hlate]
    exact iff_of_true rfl ⟨hcheap, hlate⟩
  · rw [if_neg hlate]
    exact iff_of_false nofun fun h => hlate h.2

/-- **Till then it is put off**, by the seconds that are left of that time. -/
theorem decide_eq_defer_iff {u : UInt64} :
    w.decide e fee threshold = .defer u ↔
      ¬ fee < threshold ∧ w.length.toNat / 2 + u.toNat = w.finish.toNat - e.toNat := by
  have hhalf : (w.length / 2).toNat = w.length.toNat / 2 := UInt64.toNat_div _ _
  have hleft : (UInt64Sat.sub w.finish e).toNat = w.finish.toNat - e.toNat :=
    UInt64Sat.toNat_sub _ _
  rw [decide]
  by_cases hcheap : fee < threshold
  · simp [hcheap]
  by_cases hlate : UInt64Sat.sub w.finish e < w.length / 2
  · have hlate' := UInt64.lt_iff_toNat_lt.1 hlate
    simp only [hcheap, hlate, if_false, if_true, not_false_eq_true, true_and, reduceCtorEq,
      false_iff]
    omega
  · have hle : w.length / 2 ≤ UInt64Sat.sub w.finish e := UInt64.not_lt.1 hlate
    have hrest := UInt64.toNat_sub_of_le _ _ hle
    have hle' := UInt64.le_iff_toNat_le.1 hle
    simp only [hcheap, hlate, if_false, not_false_eq_true, true_and, GasDecision.defer.injEq,
      ← UInt64.toNat_inj]
    omega

end BondWindow
end PoolKeeper
