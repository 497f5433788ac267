/-
Network details from the words of settings.

Words are read one after the other, and each sets the field of its own setting:
details that are made of words stay so, with one word replaced
(`apply_ofWords`). By induction on what is read they are in the end those of the
words that were read last (`foldlM_apply`), if every whole number has 64 bits. So
there are details just when that is so and every setting of the version was read
(`ofValues_eq_ok_iff`); and a setting that was not read has none.
-/
import Mathlib.Logic.Function.Basic
import PoolKeeper.State.NetworkDetails

namespace PoolKeeper

namespace Setting

/-- How the word of a setting is to be understood. -/
inductive Kind where
  | word
  | integer
  | address
  | flag
  deriving DecidableEq

def kind : Setting → Kind
  | .rewardIndex | .intervalDuration | .intervalStart | .scrubPeriod | .pricesBlock |
  .latestReportablePricesBlock | .balancesBlock | .latestReportableBalancesBlock |
  .minipoolLaunchTimeout | .promotionScrubPeriod | .bondReductionWindowStart |
  .bondReductionWindowLength => .integer
  | .smoothingPoolAddress => .address
  | .submitBalancesEnabled | .submitPricesEnabled => .flag
  | _ => .word

end Setting

namespace NetworkDetails

/-- The details that words stand for. Of a whole number only 64 bits are kept. -/
def ofWords (w : Setting → Word) : NetworkDetails where
  rplPrice := w .rplPrice
  minCollateralFraction := w .minCollateralFraction
  maxCollateralFraction := w .maxCollateralFraction
  rewardIndex := UInt64.ofNat (w .rewardIndex).toNat
  intervalDuration := UInt64.ofNat (w .intervalDuration).toNat
  intervalStart := UInt64.ofNat (w .intervalStart).toNat
  nodeOperatorRewardsPercent := w .nodeOperatorRewardsPercent
  trustedNodeOperatorRewardsPercent := w .trustedNodeOperatorRewardsPercent
  protocolDaoRewardsPercent := w .protocolDaoRewardsPercent
  pendingRplRewards := w .pendingRplRewards
  scrubPeriod := UInt64.ofNat (w .scrubPeriod).toNat
  smoothingPoolAddress := .ofWord (w .smoothingPoolAddress)
  smoothingPoolBalance := w .smoothingPoolBalance
  depositPoolBalance := w .depositPoolBalance
  depositPoolExcess := w .depositPoolExcess
  queueCapacity := w .queueCapacity
  rplInflationIntervalRate := w .rplInflationIntervalRate
  rplTotalSupply := w .rplTotalSupply
  pricesBlock := UInt64.ofNat (w .pricesBlock).toNat
  latestReportablePricesBlock := UInt64.ofNat (w .latestReportablePricesBlock).toNat
  ethUtilizationRate := w .ethUtilizationRate
  stakingEthBalance := w .stakingEthBalance
  rethExchangeRate := w .rethExchangeRate
  totalEthBalance := w .totalEthBalance
  rethContractBalance := w .rethContractBalance
  totalRethSupply := w .totalRethSupply
  totalRplStake := w .totalRplStake
  nodeFee := w .nodeFee
  balancesBlock := UInt64.ofNat (w .balancesBlock).toNat
  latestReportableBalancesBlock := UInt64.ofNat (w .latestReportableBalancesBlock).toNat
  submitBalancesEnabled := w .submitBalancesEnabled != 0
  submitPricesEnabled := w .submitPricesEnabled != 0
  minipoolLaunchTimeout := UInt64.ofNat (w .minipoolLaunchTimeout).toNat
  promotionScrubPeriod := UInt64.ofNat (w .promotionScrubPeriod).toNat
  bondReductionWindowStart := UInt64.ofNat (w .bondReductionWindowStart).toNat
  bondReductionWindowLength := UInt64.ofNat (w .bondReductionWindowLength).toNat
  depositPoolUserBalance := w .depositPoolUserBalance

/-- The word can be the value of the setting. -/
def fits (s : Setting) (value : Word) : Bool := s.kind != .integer || value.toNat < 2 ^ 64

theorem fits_iff {s : Setting} {value : Word} :
    fits s value = true ↔ (s.kind = .integer → value.toNat < 2 ^ 64) := by
  rw [fits, Bool.or_eq_true, bne_iff_ne, decide_eq_true_eq, Decidable.imp_iff_not_or]

/-- **One word sets one field.** -/
theorem apply_ofWords (word : Setting → Word) (s : Setting) (value : Word) :
    (ofWords word).apply s value =
      if fits s value then .ok (ofWords (Function.update word s value))
      else .error (.tooLarge s value) := by
  by_cases hvalue : value.toNat < 2 ^ 64
  · have hread : value.toUInt64? = some (UInt64.ofNat value.toNat) := if_pos hvalue
    rw [if_pos (fits_iff.2 fun _ => hvalue), apply.eq_def, hread]
    cases s <;> rfl
  · have hread : value.toUInt64? = none := if_neg hvalue
    rw [apply.eq_def, hread, fits, decide_eq_false hvalue]
    cases s <;> rfl

/-- The words of settings after some were read, later ones in the place of earlier ones. -/
def wordsAfter (word : Setting → Word) (values : List (Setting × Word)) : Setting → Word :=
  values.foldl (fun word v => Function.update word v.1 v.2) word

/-- **Words that are read one after the other** make details of the words there are in the end,
unless one does not fit. -/
theorem foldlM_apply (word : Setting → Word) (values : List (Setting × Word)) :
    values.foldlM (fun d v => d.apply v.1 v.2) (ofWords word) =
      match values.find? fun v => !fits v.1 v.2 with
      | some v => .error (.tooLarge v.1 v.2)
      | none => .ok (ofWords (wordsAfter word values)) := by
  induction values generalizing word with
  | nil => rfl
  | cons v values ih =>
    rw [List.foldlM_cons, apply_ofWords]
    cases hfits : fits v.1 v.2 with
    | true =>
      rw [List.find?_cons_of_neg (by simp [hfits])]
      exact ih (Function.update word v.1 v.2)
    | false =>
      rw [List.find?_cons_of_pos (by simp [hfits])]
      rfl

/-- The last word read for a setting, zero when there is none. -/
def lastValue (values : List (Setting × Word)) : Setting → Word := wordsAfter (fun _ => 0) values

/-- The first word that does not fit is what is wrong, or else the first setting that was not
read. -/
theorem ofValues_eq (values : List (Setting × Word)) (isAtlasDeployed : Bool) :
    ofValues values isAtlasDeployed =
      match values.find? fun v => !fits v.1 v.2 with
      | some v => .error (.tooLarge v.1 v.2)
      | none =>
        match (Setting.ofVersion isAtlasDeployed).find? fun s => !values.any (·.1 == s) with
        | some s => .error (.missing s)
        | none => .ok (ofWords (lastValue values)) := by
  have hzero : ({} : NetworkDetails) = ofWords fun _ => 0 := rfl
  rw [ofValues, hzero, foldlM_apply]
  cases values.find? fun v => !fits v.1 v.2 with
  | some v => rfl
  | none =>
    cases (Setting.ofVersion isAtlasDeployed).find? fun s => !values.any (·.1 == s) <;> rfl

/-- What is read for other settings leaves the word of a setting. -/
theorem wordsAfter_of_not_mem {word : Setting → Word} {values : List (Setting × Word)} {s : Setting}
    (h : ∀ v ∈ values, v.1 ≠ s) : wordsAfter word values s = word s := by
  induction values generalizing word with
  | nil => rfl
  | cons v values ih =>
    obtain ⟨hv, hvalues⟩ := List.forall_mem_cons.1 h
    rw [wordsAfter, List.foldl_cons, ← wordsAfter, ih hvalues, Function.update_of_ne hv.symm]

/-- What is read later for other settings does not matter. -/
theorem lastValue_of_last {before after : List (Setting × Word)} {s : Setting} {w : Word}
    (h : ∀ v ∈ after, v.1 ≠ s) : lastValue (before ++ (s, w) :: after) s = w := by
  rw [lastValue, wordsAfter, List.foldl_append, List.foldl_cons, ← wordsAfter,
    wordsAfter_of_not_mem h, Function.update_self]

theorem lastValue_of_not_mem {values : List (Setting × Word)} {s : Setting}
    (h : ∀ v ∈ values, v.1 ≠ s) : lastValue values s = 0 :=
  wordsAfter_of_not_mem h

/-- A setting that was read has a last word. -/
theorem exists_last {values : List (Setting × Word)} {s : Setting} (h : ∃ v ∈ values, v.1 = s) :
    ∃ before w after, values = before ++ (s, w) :: after ∧ ∀ v ∈ after, v.1 ≠ s := by
  induction values with
  | nil => simp at h
  | cons v values ih =>
    by_cases hlater : ∃ v ∈ values, v.1 = s
    · obtain ⟨before, w, after, rfl, hafter⟩ := ih hlater
      exact ⟨v :: before, w, after, rfl, hafter⟩
    · obtain ⟨s', w⟩ := v
      obtain ⟨v, hv, rfl⟩ := h
      rcases List.mem_cons.1 hv with rfl | hv
      · exact ⟨[], w, values, rfl, fun v hv hsame => hlater ⟨v, hv, hsame⟩⟩
      · exact absurd ⟨v, hv, rfl⟩ hlater

/-- **There are details when every word fits and every setting was read**, and they are those of
the words that were read last. -/
theorem ofValues_eq_ok_iff {values : List (Setting × Word)} {isAtlasDeployed : Bool}
    {d : NetworkDetails} :
    ofValues values isAtlasDeployed = .ok d ↔
      (∀ v ∈ values, v.1.kind = .integer → v.2.toNat < 2 ^ 64) ∧
      (∀ s ∈ Setting.ofVersion isAtlasDeployed, ∃ v ∈ values, v.1 = s) ∧
      d = ofWords (lastValue values) := by
  have hfits : values.find? (fun v => !fits v.1 v.2) = none ↔
      ∀ v ∈ values, v.1.kind = .integer → v.2.toNat < 2 ^ 64 := by
    simp only [List.find?_eq_none, Bool.not_eq_true, Bool.not_eq_false', fits_iff]
  have hread : (Setting.ofVersion isAtlasDeployed).find? (fun s => !values.any (·.1 == s)) = none ↔
      ∀ s ∈ Setting.ofVersion isAtlasDeployed, ∃ v ∈ values, v.1 = s := by
    simp only [List.find?_eq_none, Bool.not_eq_true, Bool.not_eq_false', List.any_eq_true,
      beq_iff_eq]
  rw [← hfits, ← hread, ofValues_eq]
  cases values.find? (fun v => !fits v.1 v.2) with
  | some v => simp
  | none =>
    cases (Setting.ofVersion isAtlasDeployed).find? (fun s => !values.any (·.1 == s)) with
    | some s => simp
    | none => simp [eq_comm]

/-- **All settings of a version, each read once, make network details** when the whole numbers
among them fit into 64 bits. -/
theorem ofValues_map {isAtlasDeployed : Bool} {word : Setting → Word}
    (hfits : ∀ s ∈ Setting.ofVersion isAtlasDeployed,
      s.kind = .integer → (word s).toNat < 2 ^ 64) :
    ofValues ((Setting.ofVersion isAtlasDeployed).map fun s => (s, word s)) isAtlasDeployed =
      .ok (ofWords fun s => if s ∈ Setting.ofVersion isAtlasDeployed then word s else 0) := by
  refine ofValues_eq_ok_iff.2 ⟨?_, fun s hs => ⟨_, List.mem_map_of_mem hs, rfl⟩, ?_⟩
  · intro v hv
    obtain ⟨s, hs, rfl⟩ := List.mem_map.1 hv
    exact hfits s hs
  · refine congrArg ofWords (funext fun s => ?_)
    split
    · rename_i hs
      have hread : ∃ v ∈ (Setting.ofVersion isAtlasDeployed).map fun s => (s, word s), v.1 = s :=
        ⟨_, List.mem_map_of_mem hs, rfl⟩
      obtain ⟨before, w, after, hvalues, hafter⟩ := exists_last hread
      have hmem : (s, w) ∈ (Setting.ofVersion isAtlasDeployed).map fun s => (s, word s) := by
        simp [hvalues]
      obtain ⟨t, -, ht⟩ := List.mem_map.1 hmem
      cases ht
      rw [hvalues, lastValue_of_last hafter]
    · rename_i hs
      refine (lastValue_of_not_mem fun v hv => ?_).symm
      obtain ⟨t, ht, rfl⟩ := List.mem_map.1 hv
      exact fun hsame => hs (hsame ▸ ht)

end NetworkDetails
end PoolKeeper
