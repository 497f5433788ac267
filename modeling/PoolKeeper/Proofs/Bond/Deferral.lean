/-
How long a reduction may be put off.

While gas is dear, a reduction that is ready is put off until less than half of its
window is left, and each time it is told how many seconds that takes. A deferral by
`u` seconds ends `u + 1` seconds later, when the window is still open if it lasts for
at least four seconds (`forced_after_deferral`). So there is a second of the window at
which a pass sends the reduction whatever the fee cap, or the minipool fails
(`deferral_ends_in_window`).

The half of a window is rounded down. Of an odd number of seconds less than a half can
be left at one second before that is found to be so (`forced_iff_less_than_half_left`,
`deferred_with_less_than_half_left`).
-/
import PoolKeeper.Proofs.Bond.Submissions

namespace PoolKeeper

namespace BondWindow

variable {w : BondWindow} {m : MinipoolDetails} {now e u : UInt64} {fee threshold : Word}

theorem toNat_finish_of_fits (hfits : w.start.toNat + w.length.toNat < 2 ^ 64) :
    w.finish.toNat = w.start.toNat + w.length.toNat := by
  rw [toNat_finish]
  omega

/-- A minipool is ready between the bounds of the window, by its own clock. -/
theorem bounds_of_ready (hfits : w.start.toNat + w.length.toNat < 2 ^ 64)
    (hready : w.classify m now = .readyToReduce e) :
    w.start.toNat < e.toNat ∧ e.toNat < w.start.toNat + w.length.toNat ∧
      now.toNat = w.requestTime.toNat + e.toNat := by
  obtain ⟨-, -, -, -, hstart, hfinish, helapsed⟩ := classify_eq_ready_iff.1 hready
  have hclock : e.toNat = now.toNat - w.requestTime.toNat := by
    rw [helapsed, UInt64Sat.toNat_sub]
  rw [UInt64.lt_iff_toNat_lt] at hstart hfinish
  rw [toNat_finish_of_fits hfits] at hfinish
  omega

/-! ## The three parts of a window's time -/

/-- **Where a request stands so many seconds after it was made.** -/
theorem Pending.classify_at (h : w.Pending m) (hlength : 0 < w.length.toNat)
    (hfits : w.start.toNat + w.length.toNat < 2 ^ 64)
    (hnow : now.toNat = w.requestTime.toNat + e.toNat) :
    (w.classify m now = .waitingForWindow (w.start - e) ↔ e.toNat ≤ w.start.toNat) ∧
      (w.classify m now = .readyToReduce e ↔
        w.start.toNat < e.toNat ∧ e.toNat < w.start.toNat + w.length.toNat) ∧
      (w.classify m now = .notEligible ↔ w.start.toNat + w.length.toNat ≤ e.toNat) := by
  have helapsed : UInt64Sat.sub now w.requestTime = e :=
    UInt64.toNat_inj.1 (by rw [UInt64Sat.toNat_sub]; omega)
  have hfinish := toNat_finish_of_fits hfits
  rw [h.classify_eq, helapsed]
  by_cases hpast : w.finish ≤ e
  · have hpast' := UInt64.le_iff_toNat_le.1 hpast
    simp only [hpast, if_true, reduceCtorEq, true_iff, false_iff]
    omega
  have hpast' : e.toNat < w.finish.toNat := UInt64.lt_iff_toNat_lt.1 (UInt64.not_le.1 hpast)
  by_cases hopen : w.start < e
  · have hopen' := UInt64.lt_iff_toNat_lt.1 hopen
    simp only [hpast, hopen, if_true, if_false, reduceCtorEq, true_iff, false_iff]
    omega
  · have hopen' := UInt64.le_iff_toNat_le.1 (UInt64.not_lt.1 hopen)
    simp only [hpast, hopen, if_false, reduceCtorEq, true_iff, false_iff]
    omega

/-- In every second of the window the minipool is ready. -/
theorem Pending.exists_ready (h : w.Pending m)
    (hfits : w.requestTime.toNat + w.start.toNat + w.length.toNat < 2 ^ 64) {k : Nat}
    (hstart : w.start.toNat < k) (hfinish : k < w.start.toNat + w.length.toNat) :
    ∃ now e : UInt64, now.toNat = w.requestTime.toNat + k ∧ e.toNat = k ∧
      w.classify m now = .readyToReduce e := by
  have he : (UInt64.ofNat k).toNat = k := by
    rw [UInt64.toNat_ofNat', Nat.mod_eq_of_lt (by omega)]
  have hnow : (UInt64.ofNat (w.requestTime.toNat + k)).toNat = w.requestTime.toNat + k := by
    rw [UInt64.toNat_ofNat', Nat.mod_eq_of_lt (by omega)]
  refine ⟨_, _, hnow, he, ?_⟩
  refine (h.classify_at (by omega) (by omega) ?_).2.1.2 ?_
  · rw [hnow, he]
  · rw [he]
    exact ⟨hstart, hfinish⟩

/-! ## While gas is dear -/

/-- A reduction that gas is too dear for is put off as long as half of the window is left. -/
theorem exists_defer_iff (hdear : threshold ≤ fee) :
    (∃ u, w.decide e fee threshold = .defer u) ↔
      w.length.toNat / 2 ≤ w.finish.toNat - e.toNat := by
  have hdear' : ¬ fee < threshold := BitVec.not_lt.2 hdear
  constructor
  · rintro ⟨u, hdefer⟩
    have hleft := (decide_eq_defer_iff.1 hdefer).2
    omega
  · intro hhalf
    cases hdecide : w.decide e fee threshold with
    | submit => exact absurd (decide_eq_submit_iff.1 hdecide) hdear'
    | force =>
      have hlate := (decide_eq_force_iff.1 hdecide).2
      omega
    | defer u => exact ⟨u, rfl⟩

/-- **A deferral is kept to.** It ends when it said that it would, and at that second the reduction
is still ready. -/
theorem forced_after_deferral (hpending : w.Pending m) (hlength : 4 ≤ w.length.toNat)
    (hfits : w.requestTime.toNat + w.start.toNat + w.length.toNat < 2 ^ 64)
    (hready : w.classify m now = .readyToReduce e)
    (hdefer : w.decide e fee threshold = .defer u) :
    (∃ now' e' : UInt64, now'.toNat = now.toNat + u.toNat + 1 ∧
      e'.toNat = e.toNat + u.toNat + 1 ∧ w.classify m now' = .readyToReduce e') ∧
    ∀ now' e' fee', w.classify m now' = .readyToReduce e' → threshold ≤ fee' →
      ((∃ u', w.decide e' fee' threshold = .defer u') ↔ e'.toNat ≤ e.toNat + u.toNat) ∧
        (w.decide e' fee' threshold = .force ↔ e.toNat + u.toNat < e'.toNat) := by
  have hfinish := toNat_finish_of_fits (w := w) (by omega)
  obtain ⟨hstart, hend, hclock⟩ := bounds_of_ready (by omega) hready
  -- the deferral lasts as long as half of the window is left
  have hends : w.length.toNat / 2 + u.toNat = w.finish.toNat - e.toNat :=
    (decide_eq_defer_iff.1 hdefer).2
  constructor
  · obtain ⟨now', e', hnow', he', hready'⟩ :=
      hpending.exists_ready hfits (k := e.toNat + u.toNat + 1) (by omega) (by omega)
    exact ⟨now', e', by omega, he', hready'⟩
  · intro now' e' fee' hready' hdear
    obtain ⟨-, hend', -⟩ := bounds_of_ready (by omega) hready'
    have hdear' : ¬ fee' < threshold := BitVec.not_lt.2 hdear
    rw [exists_defer_iff hdear, decide_eq_force_iff]
    simp only [hdear', not_false_eq_true, true_and]
    omega

/-- In the last second of a window every reduction that gas is too dear for is forced. -/
theorem Pending.exists_forced (h : w.Pending m) (hlength : 4 ≤ w.length.toNat)
    (hfits : w.requestTime.toNat + w.start.toNat + w.length.toNat < 2 ^ 64) :
    ∃ now e, w.classify m now = .readyToReduce e ∧
      ∀ fee threshold, threshold ≤ fee → w.decide e fee threshold = .force := by
  obtain ⟨now, e, -, he, hready⟩ :=
    h.exists_ready hfits (k := w.start.toNat + w.length.toNat - 1) (by omega) (by omega)
  refine ⟨now, e, hready, fun fee threshold hdear => ?_⟩
  have hfinish := toNat_finish_of_fits (w := w) (by omega)
  exact decide_eq_force_iff.2 ⟨BitVec.not_lt.2 hdear, by omega⟩

/-! ## Half of a window -/

/-- **When a dear reduction is forced**: once less than half of the window is left, but for one
second of a window that lasts an odd number of them. At that second it is put off by none. -/
theorem forced_iff_less_than_half_left (w : BondWindow) (m : MinipoolDetails) (now e : UInt64)
    (fee threshold : Word) (hfits : w.start.toNat + w.length.toNat < 2 ^ 64)
    (hready : w.classify m now = .readyToReduce e) (hdear : threshold ≤ fee) :
    let left := w.start.toNat + w.length.toNat - e.toNat
    (w.decide e fee threshold = .force ↔
      2 * left < w.length.toNat ∧ 2 * left + 1 ≠ w.length.toNat) ∧
    (2 * left + 1 = w.length.toNat → w.decide e fee threshold = .defer 0) := by
  intro left
  have hdear' : ¬ fee < threshold := BitVec.not_lt.2 hdear
  obtain ⟨-, hend, -⟩ := bounds_of_ready hfits hready
  rw [decide_eq_force_iff, decide_eq_defer_iff, toNat_finish_of_fits hfits]
  simp only [hdear', not_false_eq_true, true_and, UInt64.toNat_zero]
  omega

/-- Half a day from the request to the window, which lasts a second longer than half a day. -/
def oddWindow : BondWindow := ⟨1000000, false, 43200, 43201⟩

/-- With 21599 of 43201 seconds left a reduction is forced. -/
theorem forced_in_second_half :
    oddWindow.start.toNat + oddWindow.length.toNat < 2 ^ 64 ∧
      oddWindow.classify (BondPass.reducible 2) 1064802 = .readyToReduce 64802 ∧
      gweiToWei 150 ≤ gweiToWei 200 ∧
      oddWindow.decide 64802 (gweiToWei 200) (gweiToWei 150) = .force := by
  have hfits : oddWindow.start.toNat + oddWindow.length.toNat < 2 ^ 64 := by decide
  have hready : oddWindow.classify (BondPass.reducible 2) 1064802 = .readyToReduce 64802 := by
    decide +kernel
  have hdear : gweiToWei 150 ≤ gweiToWei 200 := by decide +kernel
  refine ⟨hfits, hready, hdear, ?_⟩
  exact (forced_iff_less_than_half_left _ _ _ _ _ _ hfits hready hdear).1.2 (by decide)

/-- **With less than half of its window left a reduction may be put off**: here 21600 of 43201
seconds are left. -/
theorem deferred_with_less_than_half_left :
    oddWindow.start.toNat + oddWindow.length.toNat < 2 ^ 64 ∧
      oddWindow.classify (BondPass.reducible 2) 1064801 = .readyToReduce 64801 ∧
      gweiToWei 150 ≤ gweiToWei 200 ∧
      2 * (oddWindow.start.toNat + oddWindow.length.toNat - 64801) < oddWindow.length.toNat ∧
      oddWindow.decide 64801 (gweiToWei 200) (gweiToWei 150) ≠ .force ∧
      oddWindow.decide 64801 (gweiToWei 200) (gweiToWei 150) = .defer 0 := by
  decide +kernel

end BondWindow

/-! ## Passes -/

namespace BondPass

variable {s : Snapshot} {gas : GasSettings} {now e : UInt64} {m : MinipoolDetails} {w : BondWindow}
  {known : FeeCap} {log : List (Exchange Chain)} {r : FeeCap × Option BondOutcome}

/-- Every reading of a minipool's request is that it has this window. -/
def ReadsAs (s : Snapshot) (m : MinipoolDetails) (w : BondWindow) (log : List (Exchange Chain)) :
    Prop :=
  ∀ reply, ⟨windowCall s m.address, reply⟩ ∈ log → windowOf s m.address reply = .ok w

/-- A reduction that is ready and is put off at no fee cap is sent, unless the minipool fails. -/
theorem Visit.sent_or_failed (h : Visit s gas now m known log r) (hreads : ReadsAs s m w log)
    (hready : w.classify m now = .readyToReduce e)
    (hdefer : ∀ fee u, w.decide e fee gas.threshold ≠ .defer u) :
    (∃ options, (m.address, options) ∈ submissions log) ∨
      ∃ reason, r.2 = some (.failed reason) := by
  have read {reply : Except Failure (List Word)} {w' : BondWindow}
      (hmem : ⟨windowCall s m.address, reply⟩ ∈ log)
      (hread : windowOf s m.address reply = .ok w') : w' = w :=
    Except.ok.inj (hread.symm.trans (hreads reply hmem))
  cases h with
  | unread reply f hread => exact .inr ⟨f.line, rfl⟩
  | idle reply w' hread hidle =>
    obtain rfl := read List.mem_cons_self hread
    rcases hidle with hidle | hidle <;> cases hidle.symm.trans hready
  | waiting reply w' remaining hread hwaiting =>
    obtain rfl := read List.mem_cons_self hread
    cases hwaiting.symm.trans hready
  | reduced reply w' elapsed hread hready' hreduction =>
    obtain rfl := read List.mem_cons_self hread
    cases hready'.symm.trans hready
    cases hreduction with
    | unestimated f e => exact .inr ⟨e.line, rfl⟩
    | unpriced info f e hunknown => exact .inr ⟨e.line, rfl⟩
    | deferred info asked fee u hpriced hdeferred => exact absurd hdeferred (hdefer fee u)
    | sent info asked fee reply' result hpriced hsend =>
      refine .inl ⟨options gas fee info, ?_⟩
      rw [submissions, List.mem_filterMap]
      exact ⟨⟨.sendReduction m.address (options gas fee info), reply'⟩, by simp, rfl⟩

/-- **A reduction is never put off till its window is over.** A request that stands is before its
window, in it or past it, at the very seconds that its times give. A deferral is kept to, at any fee
cap that is dear, and what is put off is forced while it is still ready. And there is a second at
which it is forced at every such cap, so that a pass sends the reduction then or the minipool
fails. -/
theorem deferral_ends_in_window (w : BondWindow) (m : MinipoolDetails) (hpending : w.Pending m)
    (hlength : 4 ≤ w.length.toNat)
    (hfits : w.requestTime.toNat + w.start.toNat + w.length.toNat < 2 ^ 64) :
    (∀ now e : UInt64, now.toNat = w.requestTime.toNat + e.toNat →
      (w.classify m now = .waitingForWindow (w.start - e) ↔ e.toNat ≤ w.start.toNat) ∧
      (w.classify m now = .readyToReduce e ↔
        w.start.toNat < e.toNat ∧ e.toNat < w.start.toNat + w.length.toNat) ∧
      (w.classify m now = .notEligible ↔ w.start.toNat + w.length.toNat ≤ e.toNat)) ∧
    (∀ now e fee threshold u, w.classify m now = .readyToReduce e →
      w.decide e fee threshold = .defer u →
      (∃ now' e' : UInt64, now'.toNat = now.toNat + u.toNat + 1 ∧
        e'.toNat = e.toNat + u.toNat + 1 ∧ w.classify m now' = .readyToReduce e') ∧
      ∀ now' e' fee', w.classify m now' = .readyToReduce e' → threshold ≤ fee' →
        ((∃ u', w.decide e' fee' threshold = .defer u') ↔ e'.toNat ≤ e.toNat + u.toNat) ∧
        (w.decide e' fee' threshold = .force ↔ e.toNat + u.toNat < e'.toNat)) ∧
    ∃ now e, w.classify m now = .readyToReduce e ∧
      (∀ fee threshold, threshold ≤ fee → w.decide e fee threshold = .force) ∧
      ∀ s gas node log outcomes, s.parts.isAtlasDeployed = true → m ∈ s.minipoolsOf node →
        (run s gas node now).Runs log outcomes → ReadsAs s m w log →
        (∃ options, (m.address, options) ∈ submissions log) ∨
          ∃ reason, ⟨m.address, .failed reason⟩ ∈ outcomes := by
  refine ⟨fun now e hnow => hpending.classify_at (by omega) (by omega) hnow, ?_, ?_⟩
  · intro now e fee threshold u hready hdefer
    exact BondWindow.forced_after_deferral hpending hlength hfits hready hdefer
  · obtain ⟨now, e, hready, hforced⟩ := hpending.exists_forced hlength hfits
    refine ⟨now, e, hready, hforced, ?_⟩
    intro s gas node log outcomes hatlas hm hruns hreads
    rw [run, if_pos hatlas] at hruns
    obtain ⟨known, l, r, hvisit, hsaid, houtcome⟩ := exists_visit hruns hm
    have hdefer : ∀ fee u, w.decide e fee gas.threshold ≠ .defer u := by
      intro fee u hdefer
      have hdear := BitVec.not_lt.1 (BondWindow.decide_eq_defer_iff.1 hdefer).1
      cases (hforced fee gas.threshold hdear).symm.trans hdefer
    rcases hvisit.sent_or_failed (fun reply hmem => hreads reply (hsaid hmem)) hready hdefer with
      ⟨options, hsent⟩ | ⟨reason, hfailed⟩
    · exact .inl ⟨options, List.filterMap_subset _ hsaid hsent⟩
    · exact .inr ⟨reason, houtcome _ hfailed⟩

/-- Half a day from the request to the window, and half a day for the window. -/
def halfDays : BondWindow := ⟨1000000, false, 43200, 43200⟩

/-- Put off ten seconds after its window has opened, a reduction is forced six hours later. -/
theorem forced_after_six_hours :
    halfDays.Pending (reducible 2) ∧ 4 ≤ halfDays.length.toNat ∧
      halfDays.requestTime.toNat + halfDays.start.toNat + halfDays.length.toNat < 2 ^ 64 ∧
      halfDays.classify (reducible 2) 1043210 = .readyToReduce 43210 ∧
      halfDays.decide 43210 (gweiToWei 200) (gweiToWei 150) = .defer 21590 ∧
      ∃ now' e' : UInt64, now'.toNat = 1064801 ∧
        halfDays.classify (reducible 2) now' = .readyToReduce e' ∧
        halfDays.decide e' (gweiToWei 300) (gweiToWei 150) = .force := by
  have hpending : halfDays.Pending (reducible 2) := ⟨by decide, rfl, rfl, rfl⟩
  have hlength : 4 ≤ halfDays.length.toNat := by decide
  have hfits : halfDays.requestTime.toNat + halfDays.start.toNat + halfDays.length.toNat < 2 ^ 64 :=
    by decide
  have hready : halfDays.classify (reducible 2) 1043210 = .readyToReduce 43210 := by decide +kernel
  have hdefer : halfDays.decide 43210 (gweiToWei 200) (gweiToWei 150) = .defer 21590 := by
    decide +kernel
  refine ⟨hpending, hlength, hfits, hready, hdefer, ?_⟩
  obtain ⟨-, hkept, -⟩ := deferral_ends_in_window halfDays (reducible 2) hpending hlength hfits
  obtain ⟨⟨now', e', hnow', he', hready'⟩, hlater⟩ := hkept _ _ _ _ _ hready hdefer
  have hforced := (hlater now' e' (gweiToWei 300) hready' (by decide +kernel)).2.2
  exact ⟨now', e', hnow', hready', hforced (by rw [he']; exact Nat.lt_succ_self _)⟩

end BondPass

end PoolKeeper
