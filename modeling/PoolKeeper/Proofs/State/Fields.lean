/-
Every setting has a field of its own.

`NetworkDetails.field` is the field of a setting, and `Kind.Means` says of a
value of a field which word it stands for. Details that are made of words have
in each field what the word of its own setting means (`means_field_ofWords`,
setting by setting), and by `ofValues_eq_ok_iff` that word is the one which was
read last. So neither the order of the words nor those of other settings show
in a field (`details_of_settings`).
-/
import PoolKeeper.Proofs.State.Settings
import PoolKeeper.State.Build

namespace PoolKeeper

namespace Setting

namespace Kind

/-- What a field holds for a word of a kind. -/
abbrev Value : Kind → Type
  | .word => Word
  | .integer => UInt64
  | .address => Address
  | .flag => Bool

/-- A value stands for a word: it is the word, or the same number, or the last twenty of its
bytes, or whether it is not zero. -/
def Means : (k : Kind) → Word → k.Value → Prop
  | .word, w, v => v = w
  | .integer, w, n => n.toNat = w.toNat
  | .address, w, a => a.toBytes = (Bytes.bigEndian 32 w.toNat).drop 12
  | .flag, w, b => b = true ↔ w ≠ 0

/-- A word stands for one value only. -/
theorem Means.unique {k : Kind} {w : Word} {v v' : k.Value} (h : k.Means w v) (h' : k.Means w v') :
    v = v' := by
  cases k with
  | word => exact Eq.trans h (Eq.symm h')
  | integer => exact UInt64.toNat_inj.1 (Eq.trans h (Eq.symm h'))
  | address => exact FixedBytes.toBytes_inj (Eq.trans h (Eq.symm h'))
  | flag => exact Bool.eq_iff_iff.2 (Iff.trans h (Iff.symm h'))

/-- The value that a word is made into. -/
def decode : (k : Kind) → Word → k.Value
  | .word, w => w
  | .integer, w => UInt64.ofNat w.toNat
  | .address, w => .ofWord w
  | .flag, w => w != 0

/-- The address in a word is its last twenty bytes. -/
theorem toBytes_ofWord (w : Word) :
    (Address.ofWord w).toBytes = (Bytes.bigEndian 32 w.toNat).drop 12 := by
  have hdrop : (Bytes.bigEndian 32 w.toNat).drop 12 = Bytes.bigEndian 20 w.toNat := rfl
  rw [hdrop]
  refine Bytes.toNat_inj (by simp) ?_
  rw [FixedBytes.toNat_toBytes, Bytes.toNat_bigEndian, Address.ofWord, BitVec.toNat_setWidth]

theorem means_decode {k : Kind} {w : Word} (h : k = .integer → w.toNat < 2 ^ 64) :
    k.Means w (k.decode w) := by
  cases k with
  | word => exact rfl
  | integer => exact Nat.mod_eq_of_lt (h rfl)
  | address => exact toBytes_ofWord w
  | flag => exact bne_iff_ne

end Kind

/-- The settings that are not read before Atlas are those that came with it. -/
theorem mem_ofVersion_iff {s : Setting} {isAtlasDeployed : Bool} :
    s ∈ ofVersion isAtlasDeployed ↔ (s ∈ atlas → isAtlasDeployed = true) := by
  cases isAtlasDeployed <;> cases s <;> decide

end Setting

namespace NetworkDetails
variable {d d' : NetworkDetails}

/-- The field of a setting. -/
def field (d : NetworkDetails) : (s : Setting) → s.kind.Value
  | .rplPrice => d.rplPrice
  | .minCollateralFraction => d.minCollateralFraction
  | .maxCollateralFraction => d.maxCollateralFraction
  | .rewardIndex => d.rewardIndex
  | .intervalDuration => d.intervalDuration
  | .intervalStart => d.intervalStart
  | .nodeOperatorRewardsPercent => d.nodeOperatorRewardsPercent
  | .trustedNodeOperatorRewardsPercent => d.trustedNodeOperatorRewardsPercent
  | .protocolDaoRewardsPercent => d.protocolDaoRewardsPercent
  | .pendingRplRewards => d.pendingRplRewards
  | .scrubPeriod => d.scrubPeriod
  | .smoothingPoolAddress => d.smoothingPoolAddress
  | .smoothingPoolBalance => d.smoothingPoolBalance
  | .depositPoolBalance => d.depositPoolBalance
  | .depositPoolExcess => d.depositPoolExcess
  | .queueCapacity => d.queueCapacity
  | .rplInflationIntervalRate => d.rplInflationIntervalRate
  | .rplTotalSupply => d.rplTotalSupply
  | .pricesBlock => d.pricesBlock
  | .latestReportablePricesBlock => d.latestReportablePricesBlock
  | .ethUtilizationRate => d.ethUtilizationRate
  | .stakingEthBalance => d.stakingEthBalance
  | .rethExchangeRate => d.rethExchangeRate
  | .totalEthBalance => d.totalEthBalance
  | .rethContractBalance => d.rethContractBalance
  | .totalRethSupply => d.totalRethSupply
  | .totalRplStake => d.totalRplStake
  | .nodeFee => d.nodeFee
  | .balancesBlock => d.balancesBlock
  | .latestReportableBalancesBlock => d.latestReportableBalancesBlock
  | .submitBalancesEnabled => d.submitBalancesEnabled
  | .submitPricesEnabled => d.submitPricesEnabled
  | .minipoolLaunchTimeout => d.minipoolLaunchTimeout
  | .promotionScrubPeriod => d.promotionScrubPeriod
  | .bondReductionWindowStart => d.bondReductionWindowStart
  | .bondReductionWindowLength => d.bondReductionWindowLength
  | .depositPoolUserBalance => d.depositPoolUserBalance

/-- There are no other fields. -/
theorem ext_field (h : ∀ s, d.field s = d'.field s) : d = d' := by
  obtain ⟨⟩ := d
  obtain ⟨⟩ := d'
  rw [NetworkDetails.mk.injEq]
  exact ⟨h .rplPrice, h .minCollateralFraction, h .maxCollateralFraction, h .rewardIndex,
    h .intervalDuration, h .intervalStart, h .nodeOperatorRewardsPercent,
    h .trustedNodeOperatorRewardsPercent, h .protocolDaoRewardsPercent, h .pendingRplRewards,
    h .scrubPeriod, h .smoothingPoolAddress, h .smoothingPoolBalance, h .depositPoolBalance,
    h .depositPoolExcess, h .queueCapacity, h .rplInflationIntervalRate, h .rplTotalSupply,
    h .pricesBlock, h .latestReportablePricesBlock, h .ethUtilizationRate, h .stakingEthBalance,
    h .rethExchangeRate, h .totalEthBalance, h .rethContractBalance, h .totalRethSupply,
    h .totalRplStake, h .nodeFee, h .balancesBlock, h .latestReportableBalancesBlock,
    h .submitBalancesEnabled, h .submitPricesEnabled, h .minipoolLaunchTimeout,
    h .promotionScrubPeriod, h .bondReductionWindowStart, h .bondReductionWindowLength,
    h .depositPoolUserBalance⟩

theorem field_ofWords (word : Setting → Word) (s : Setting) :
    (ofWords word).field s = s.kind.decode (word s) := by
  cases s <;> rfl

/-- **A field holds what the word of its own setting means.** -/
theorem means_field_ofWords (word : Setting → Word) {s : Setting}
    (h : s.kind = .integer → (word s).toNat < 2 ^ 64) :
    s.kind.Means (word s) ((ofWords word).field s) := by
  rw [field_ofWords]
  exact Setting.Kind.means_decode h

variable {values : List (Setting × Word)} {isAtlasDeployed : Bool}

/-- The word that was read last for a setting is the one that its field stands for. -/
theorem means_field_of_last (h : ofValues values isAtlasDeployed = .ok d)
    {before after : List (Setting × Word)} {s : Setting} {w : Word}
    (hvalues : values = before ++ (s, w) :: after) (hlast : ∀ v ∈ after, v.1 ≠ s) :
    s.kind.Means w (d.field s) := by
  obtain ⟨hfits, -, rfl⟩ := ofValues_eq_ok_iff.1 h
  have hword : lastValue values s = w := hvalues ▸ lastValue_of_last hlast
  have hmeans := means_field_ofWords (lastValue values) (s := s)
  rw [hword] at hmeans
  exact hmeans (hfits (s, w) (by simp [hvalues]))

/-- The field of a setting that was not read is zero. -/
theorem means_zero_of_not_read (h : ofValues values isAtlasDeployed = .ok d) {s : Setting}
    (hs : ∀ v ∈ values, v.1 ≠ s) : s.kind.Means 0 (d.field s) := by
  obtain ⟨-, -, rfl⟩ := ofValues_eq_ok_iff.1 h
  have hmeans := means_field_ofWords (lastValue values) (s := s)
  rw [lastValue_of_not_mem hs] at hmeans
  exact hmeans fun _ => by decide

/-! ## Words that are read once -/

/-- A word was read for each setting of a version, in any order. -/
def ReadOnce (isAtlasDeployed : Bool) (word : Setting → Word) (values : List (Setting × Word)) :
    Prop :=
  values.Perm ((Setting.ofVersion isAtlasDeployed).map fun s => (s, word s))

namespace ReadOnce
variable {word : Setting → Word} (h : ReadOnce isAtlasDeployed word values)
include h

theorem mem_iff {s : Setting} {w : Word} :
    (s, w) ∈ values ↔ s ∈ Setting.ofVersion isAtlasDeployed ∧ w = word s := by
  rw [List.Perm.mem_iff h, List.mem_map]
  constructor
  · rintro ⟨t, ht, hsame⟩
    cases hsame
    exact ⟨ht, rfl⟩
  · rintro ⟨hs, rfl⟩
    exact ⟨s, hs, rfl⟩

theorem forall_fit_iff :
    (∀ v ∈ values, v.1.kind = .integer → v.2.toNat < 2 ^ 64) ↔
      ∀ s ∈ Setting.ofVersion isAtlasDeployed, s.kind = .integer → (word s).toNat < 2 ^ 64 := by
  constructor
  · intro hfits s hs
    exact hfits (s, word s) (h.mem_iff.2 ⟨hs, rfl⟩)
  · rintro hfits ⟨s, w⟩ hv
    obtain ⟨hs, rfl⟩ := h.mem_iff.1 hv
    exact hfits s hs

theorem means_field (hd : ofValues values isAtlasDeployed = .ok d) {s : Setting}
    (hs : s ∈ Setting.ofVersion isAtlasDeployed) : s.kind.Means (word s) (d.field s) := by
  obtain ⟨before, w, after, hvalues, hlast⟩ := exists_last ⟨_, h.mem_iff.2 ⟨hs, rfl⟩, rfl⟩
  obtain ⟨-, rfl⟩ := h.mem_iff.1 (show (s, w) ∈ values by simp [hvalues])
  exact means_field_of_last hd hvalues hlast

theorem means_zero (hd : ofValues values isAtlasDeployed = .ok d) {s : Setting}
    (hs : s ∉ Setting.ofVersion isAtlasDeployed) : s.kind.Means 0 (d.field s) :=
  means_zero_of_not_read hd fun v hv hsame => hs (hsame ▸ (h.mem_iff.1 (show v ∈ values from hv)).1)

/-- **A field does not change with the words of other settings.** -/
theorem field_congr {word' : Setting → Word} {values' : List (Setting × Word)}
    (h' : ReadOnce isAtlasDeployed word' values') (hd : ofValues values isAtlasDeployed = .ok d)
    (hd' : ofValues values' isAtlasDeployed = .ok d') {s : Setting} (hsame : word' s = word s) :
    d'.field s = d.field s := by
  by_cases hs : s ∈ Setting.ofVersion isAtlasDeployed
  · have hmeans := h'.means_field hd' hs
    rw [hsame] at hmeans
    exact hmeans.unique (h.means_field hd hs)
  · exact (h'.means_zero hd' hs).unique (h.means_zero hd hs)

end ReadOnce

/-! ## Settings and their fields -/

open Snapshot.Build (details)

theorem details_eq_ok_iff {block : UInt64} :
    details isAtlasDeployed block values = .ok d ↔ ofValues values isAtlasDeployed = .ok d := by
  rw [details]
  cases ofValues values isAtlasDeployed with
  | ok d' =>
    constructor
    · intro h
      cases h
      rfl
    · intro h
      cases h
      rfl
  | error f => exact iff_of_false nofun nofun

/-- Whatever is wrong with words, they are said to be inconsistent. -/
theorem details_eq_error {block : UInt64} {f : Fault}
    (h : ofValues values isAtlasDeployed = .error f) :
    details isAtlasDeployed block values = .error (.inconsistent block f.message) := by
  rw [details, h]
  rfl

theorem ofValues_of_not_read {s : Setting} (hs : s ∈ Setting.ofVersion isAtlasDeployed)
    (h : ∀ v ∈ values, v.1 ≠ s) : ∃ f, ofValues values isAtlasDeployed = .error f ∧
      ((∀ v ∈ values, v.1.kind = .integer → v.2.toNat < 2 ^ 64) →
        (∀ t ∈ Setting.ofVersion isAtlasDeployed, t ≠ s → ∃ v ∈ values, v.1 = t) →
        f = .missing s) := by
  cases hresult : ofValues values isAtlasDeployed with
  | ok d =>
    obtain ⟨v, hv, hsame⟩ := (ofValues_eq_ok_iff.1 hresult).2.1 s hs
    exact absurd hsame (h v hv)
  | error f =>
    refine ⟨f, rfl, fun hfits hothers => ?_⟩
    have hall : values.find? (fun v => !fits v.1 v.2) = none := by
      simpa only [List.find?_eq_none, Bool.not_eq_true, Bool.not_eq_false', fits_iff] using hfits
    cases hmissing : (Setting.ofVersion isAtlasDeployed).find?
        fun t => !values.any (·.1 == t) with
    | none =>
      rw [ofValues_eq, hall, hmissing] at hresult
      cases hresult
    | some t =>
      rw [ofValues_eq, hall, hmissing] at hresult
      obtain rfl := Except.error.inj hresult
      -- the one that is found missing is the only one that is
      refine congrArg Fault.missing (Classical.byContradiction fun hne => ?_)
      obtain ⟨v, hv, rfl⟩ := hothers t (List.mem_of_find?_eq_some hmissing) hne
      have hread : values.any (·.1 == v.1) = true :=
        List.any_eq_true.2 ⟨v, hv, beq_self_eq_true v.1⟩
      have hnone := List.find?_some hmissing
      rw [hread] at hnone
      cases hnone

/-- **Every setting has a field of its own.** The settings of a version, each read once and in any
order, make network details exactly when every whole number among them fits into 64 bits. A field
then stands for the word of its own setting, and for no other; before Atlas the fields of the
settings that came with it are zero. Words that lack a setting are refused at their block. And
of several words for a setting, all of which have to fit, the last counts. -/
theorem details_of_settings (isAtlasDeployed : Bool) (block : UInt64) :
    (∀ word values, ReadOnce isAtlasDeployed word values →
      ((∃ d, details isAtlasDeployed block values = .ok d) ↔
        ∀ s ∈ Setting.ofVersion isAtlasDeployed, s.kind = .integer → (word s).toNat < 2 ^ 64) ∧
      ∀ d, details isAtlasDeployed block values = .ok d →
        (∀ s ∈ Setting.ofVersion isAtlasDeployed, s.kind.Means (word s) (d.field s)) ∧
        (isAtlasDeployed = false → ∀ s ∈ Setting.atlas, s.kind.Means 0 (d.field s)) ∧
        ∀ word' values' d', ReadOnce isAtlasDeployed word' values' →
          details isAtlasDeployed block values' = .ok d' →
          (∀ s, word' s = word s → d'.field s = d.field s) ∧ (word' = word → d' = d)) ∧
    (∀ s ∈ Setting.ofVersion isAtlasDeployed, ∀ values : List (Setting × Word),
      (∀ v ∈ values, v.1 ≠ s) →
      ∃ f : Fault, details isAtlasDeployed block values = .error (.inconsistent block f.message) ∧
        ((∀ v ∈ values, v.1.kind = .integer → v.2.toNat < 2 ^ 64) →
          (∀ t ∈ Setting.ofVersion isAtlasDeployed, t ≠ s → ∃ v ∈ values, v.1 = t) →
          f = .missing s)) ∧
    ∀ values : List (Setting × Word),
      (∀ s ∈ Setting.ofVersion isAtlasDeployed, ∃ v ∈ values, v.1 = s) →
      ((∃ d, details isAtlasDeployed block values = .ok d) ↔
        ∀ v ∈ values, v.1.kind = .integer → v.2.toNat < 2 ^ 64) ∧
      ∀ d before s w after, details isAtlasDeployed block values = .ok d →
        values = before ++ (s, w) :: after → (∀ v ∈ after, v.1 ≠ s) →
        s.kind.Means w (d.field s) := by
  simp only [details_eq_ok_iff]
  refine ⟨fun word values h => ⟨?_, fun d hd => ⟨?_, ?_, ?_⟩⟩, fun s hs values hvalues => ?_,
    fun values hread => ⟨?_, ?_⟩⟩
  · rw [← h.forall_fit_iff]
    simp only [ofValues_eq_ok_iff]
    refine ⟨fun ⟨_, hfits, _⟩ => hfits, fun hfits => ⟨_, hfits, fun s hs => ?_, rfl⟩⟩
    exact ⟨_, h.mem_iff.2 ⟨hs, rfl⟩, rfl⟩
  · exact fun s hs => h.means_field hd hs
  · rintro hbefore s hs
    refine h.means_zero hd fun hmem => ?_
    exact absurd (Setting.mem_ofVersion_iff.1 hmem hs) (by simp [hbefore])
  · intro word' values' d' h' hd'
    refine ⟨fun s hsame => h.field_congr h' hd hd' hsame, ?_⟩
    rintro rfl
    exact ext_field fun s => h.field_congr h' hd hd' rfl
  · obtain ⟨f, hf, hmissing⟩ := ofValues_of_not_read hs hvalues
    exact ⟨f, details_eq_error hf, hmissing⟩
  · simp only [ofValues_eq_ok_iff]
    exact ⟨fun ⟨_, hfits, _⟩ => hfits, fun hfits => ⟨_, hfits, hread, rfl⟩⟩
  · intro d before s w after hd hvalues hlast
    exact means_field_of_last hd hvalues hlast

/-- A word of its own for every setting: its place among all. -/
def place (s : Setting) : Word := BitVec.ofNat 256 (Setting.all.idxOf s)

/-- The words of all settings are read in reverse; then without one of them; then, before Atlas,
with one of them again. -/
theorem details_of_places :
    (∃ d, details true 9 (Setting.all.map fun s => (s, place s)).reverse = .ok d ∧
      d.minCollateralFraction = 1 ∧ d.rewardIndex = 3 ∧ d.smoothingPoolAddress = ⟨11⟩ ∧
      d.nodeFee = 27 ∧ d.submitBalancesEnabled = true ∧ d.bondReductionWindowLength = 35 ∧
      d.depositPoolUserBalance = 36) ∧
    details true 9 ((Setting.all.erase .nodeFee).map fun s => (s, place s)) =
      .error (.inconsistent 9 "network setting NodeFee was not read") ∧
    ∃ d, details false 9 ((Setting.base.map fun s => (s, place s)) ++ [(.nodeFee, 7)]) = .ok d ∧
      d.nodeFee = 7 ∧ d.minipoolLaunchTimeout = 32 := by
  obtain ⟨hall, hleft, -⟩ := details_of_settings true 9
  obtain ⟨-, -, htwice⟩ := details_of_settings false 9
  refine ⟨?_, ?_, ?_⟩
  · obtain ⟨hok, hfields⟩ := hall place _ (List.reverse_perm _)
    obtain ⟨d, hd⟩ := hok.2 (by decide)
    obtain ⟨hmeans, -⟩ := hfields d hd
    refine ⟨d, hd, hmeans .minCollateralFraction (by decide),
      (hmeans .rewardIndex (by decide)).unique rfl,
      (hmeans .smoothingPoolAddress (by decide)).unique rfl,
      hmeans .nodeFee (by decide), (hmeans .submitBalancesEnabled (by decide)).2 (by decide),
      (hmeans .bondReductionWindowLength (by decide)).unique rfl,
      hmeans .depositPoolUserBalance (by decide)⟩
  · obtain ⟨f, hf, hmissing⟩ := hleft .nodeFee (by decide)
      ((Setting.all.erase .nodeFee).map fun s => (s, place s)) (by decide)
    obtain rfl := hmissing (by decide) (by decide)
    exact hf
  · obtain ⟨hok, hlast⟩ := htwice
      ((Setting.base.map fun s => (s, place s)) ++ [(.nodeFee, 7)]) (by decide)
    obtain ⟨d, hd⟩ := hok.2 (by decide)
    have hfee := hlast d (Setting.base.map fun s => (s, place s)) .nodeFee 7 [] hd rfl nofun
    have htimeout := hlast d ((Setting.base.dropLast).map fun s => (s, place s))
      .minipoolLaunchTimeout (place .minipoolLaunchTimeout) [(.nodeFee, 7)] hd rfl (by decide)
    exact ⟨d, hd, hfee, htimeout.unique rfl⟩

end NetworkDetails
end PoolKeeper
