/-
How a node's effective stake follows from its record.

The bounds of a stake are those of the node's address, so that a higher stake
never counts for less (`collateral_mono`). Scaling keeps the order of stakes
and of the times that nodes took part (`scaledStake_mono`); a time that reaches
the interval's duration is where it stops, and no time at all counts for
nothing. Snapshots that differ in one node's record agree in all that the
collateral of a record is computed from (`DifferInNode.collateralOf_eq`).
-/
import PoolKeeper.Proofs.Stake.Collateral

namespace PoolKeeper.Snapshot

/-! ## Scaling -/

section Scaling
variable {stake stake' : Word} {seconds seconds' duration : UInt64}

theorem toNat_scaledStake :
    (scaledStake stake seconds duration).toNat =
      if duration.toNat ≤ seconds.toNat then stake.toNat
      else min (stake.toNat * seconds.toNat) (2 ^ 256 - 1) / duration.toNat := by
  unfold scaledStake
  simp only [UInt64.le_iff_toNat_le]
  split
  · rfl
  · rw [BitVec.toNat_udiv, Word.toNat_saturatingMul, Word.toNat_ofUInt64, Word.toNat_ofUInt64]

theorem scaledStake_of_le (h : duration ≤ seconds) : scaledStake stake seconds duration = stake :=
  if_pos h

/-- Who took no part in the interval has no stake. -/
theorem scaledStake_zero (hduration : duration ≠ 0) : scaledStake stake 0 duration = 0 := by
  have hpos : ¬ duration.toNat ≤ 0 := fun h => hduration (UInt64.toNat_inj.1 (Nat.le_zero.1 h))
  refine BitVec.eq_of_toNat_eq ?_
  rw [toNat_scaledStake, UInt64.toNat_zero, if_neg hpos, Nat.mul_zero, Nat.zero_min, Nat.zero_div]
  rfl

/-- Scaling never adds to a stake, although the product in it may be cut off. -/
theorem scaledStake_le : scaledStake stake seconds duration ≤ stake := by
  rw [BitVec.le_def, toNat_scaledStake]
  split
  · exact Nat.le_refl _
  · rename_i h
    have hseconds : stake.toNat * seconds.toNat ≤ stake.toNat * duration.toNat :=
      Nat.mul_le_mul_left _ (by omega)
    rw [Nat.mul_comm stake.toNat duration.toNat] at hseconds
    exact Nat.div_le_of_le_mul (Nat.le_trans (Nat.min_le_left _ _) hseconds)

/-- **More stake for a longer time never counts for less.** -/
theorem scaledStake_mono (hstake : stake ≤ stake') (hseconds : seconds ≤ seconds') :
    scaledStake stake seconds duration ≤ scaledStake stake' seconds' duration := by
  by_cases hfull : duration ≤ seconds'
  · rw [scaledStake_of_le hfull]
    exact BitVec.le_trans scaledStake_le hstake
  · -- the longer time is short of the interval too, so both products are divided
    rw [UInt64.le_iff_toNat_le] at hfull hseconds
    rw [BitVec.le_def] at hstake ⊢
    rw [toNat_scaledStake, toNat_scaledStake, if_neg (by omega), if_neg hfull]
    have hproduct := Nat.mul_le_mul hstake hseconds
    exact Nat.div_le_div_right (by omega)

end Scaling

/-! ## The record of a node -/

section Record
variable (s : Snapshot) {n n' : NodeDetails}

/-- The seconds for which a node was registered at the slot. -/
def registeredFor (n : NodeDetails) : UInt64 := UInt64Sat.sub s.slotTime n.registrationTime

theorem effectiveStake_collateralOf_true :
    (s.collateralOf true n).effectiveStake = scaledStake (s.collateral n).effectiveStake
      (s.registeredFor n) s.parts.network.intervalDuration :=
  rfl

theorem registeredFor_mono (h : n'.registrationTime ≤ n.registrationTime) :
    s.registeredFor n ≤ s.registeredFor n' := by
  rw [UInt64.le_iff_toNat_le] at *
  rw [registeredFor, registeredFor, UInt64Sat.toNat_sub, UInt64Sat.toNat_sub]
  omega

/-- The bounds stay, so a higher stake that is void leaves the lower one void, and one that is cut
off is not below it. -/
theorem collateral_mono (haddress : n'.address = n.address) (h : n.rplStake ≤ n'.rplStake) :
    (s.collateral n).effectiveStake ≤ (s.collateral n').effectiveStake := by
  have hmin : (s.collateral n').minCollateral = (s.collateral n).minCollateral := by
    simp only [collateral, haddress]
  have hmax : (s.collateral n').maxCollateral = (s.collateral n).maxCollateral := by
    simp only [collateral, haddress]
  rw [BitVec.le_def] at *
  rw [toNat_effectiveStake, toNat_effectiveStake, hmin, hmax]
  split <;> split <;> omega

theorem collateralOf_mono (scale : Bool) (haddress : n'.address = n.address)
    (hstake : n.rplStake ≤ n'.rplStake) (htime : n'.registrationTime ≤ n.registrationTime) :
    (s.collateralOf scale n).effectiveStake ≤ (s.collateralOf scale n').effectiveStake := by
  have hmono := s.collateral_mono haddress hstake
  cases scale with
  | false => exact hmono
  | true =>
    rw [effectiveStake_collateralOf_true, effectiveStake_collateralOf_true]
    exact scaledStake_mono hmono (s.registeredFor_mono htime)

end Record

/-- A record gives the same collateral in snapshots with the same network and time, in which the
minipools that count for it are the same up to their order. -/
theorem collateralOf_congr {s s' : Snapshot} (scale : Bool) {n : NodeDetails}
    (hnetwork : s'.parts.network = s.parts.network) (htime : s'.slotTime = s.slotTime)
    (hcounted : (s'.countedOf n.address).Perm (s.countedOf n.address)) :
    s'.collateralOf scale n = s.collateralOf scale n := by
  rw [← eligibleMinipools_eq, ← eligibleMinipools_eq] at hcounted
  have hborrowed := sumWords_perm (hcounted.map MinipoolDetails.userDepositBalance)
  have hbonded := sumWords_perm (hcounted.map MinipoolDetails.nodeDepositBalance)
  simp only [collateralOf, collateral, hnetwork, htime, hborrowed, hbonded]

/-! ## Two snapshots -/

/-- Snapshots that differ in the record of one node, if at all. -/
structure DifferInNode (s s' : Snapshot) (n n' : NodeDetails) : Prop where
  address : n'.address = n.address
  nodes : ∃ before after,
    s.parts.nodes = before ++ n :: after ∧ s'.parts.nodes = before ++ n' :: after
  rest : s'.parts = { s.parts with nodes := s'.parts.nodes }

namespace DifferInNode
variable {s s' : Snapshot} {n n' : NodeDetails} (h : DifferInNode s s' n n')
include h

theorem network : s'.parts.network = s.parts.network := by rw [h.rest]

theorem mem_left : n ∈ s.parts.nodes := by
  obtain ⟨before, after, hnodes, -⟩ := h.nodes
  simp [hnodes]

theorem mem_right : n' ∈ s'.parts.nodes := by
  obtain ⟨before, after, -, hnodes⟩ := h.nodes
  simp [hnodes]

/-- **A record gives the same collateral in both.** -/
theorem collateralOf_eq (scale : Bool) (m : NodeDetails) :
    s'.collateralOf scale m = s.collateralOf scale m := by
  have hminipools : s'.parts.minipools = s.parts.minipools := by rw [h.rest]
  have hvalidators : s'.parts.validators = s.parts.validators := by rw [h.rest]
  have hslot : s'.parts.slot = s.parts.slot := by rw [h.rest]
  have hconfig : s'.parts.beaconConfig = s.parts.beaconConfig := by rw [h.rest]
  have hcounts : s'.Counts = s.Counts := by
    funext m
    simp only [Counts, validator?, epoch, hvalidators, hslot, hconfig]
  refine collateralOf_congr scale h.network (by simp only [slotTime, hslot, hconfig]) ?_
  simp only [countedOf, hminipools, hcounts, List.Perm.refl]

/-- Each other node is found with the same collateral in both, or in neither. -/
theorem get?_collaterals_of_ne (scale : Bool) {a : Address} (ha : a ≠ n.address) :
    (KeyMap.ofList (s'.collaterals scale)).get? a =
      (KeyMap.ofList (s.collaterals scale)).get? a := by
  obtain ⟨before, after, hnodes, hnodes'⟩ := h.nodes
  have hsame : s'.collateralOf scale = s.collateralOf scale := funext (h.collateralOf_eq scale)
  refine Option.ext fun c => ?_
  rw [KeyMap.get?_ofList_eq_some_iff (s'.nodup_keys_collaterals scale),
    KeyMap.get?_ofList_eq_some_iff (s.nodup_keys_collaterals scale), collaterals, collaterals,
    hnodes, hnodes', hsame]
  simp [h.address, ha]

end DifferInNode

/-- **Stakes by participation.** Scaled, a node's stake is never above its stake unscaled; it is
that stake when the node was registered for the whole interval, and nothing when it registered at
the slot or later. Scaled or not, a node whose record shows no lower stake and no later
registration has no lower effective stake, and no other node's collateral tells the difference. -/
theorem effectiveStakes_monotone (s : Snapshot) (hprice : s.parts.network.rplPrice ≠ 0)
    (hduration : s.parts.network.intervalDuration ≠ 0) :
    (∃ scaled full, s.effectiveStakes true = .ok scaled ∧ s.effectiveStakes false = .ok full ∧
      ∀ n ∈ s.parts.nodes, ∃ c d,
        scaled.nodes.get? n.address = some c ∧ full.nodes.get? n.address = some d ∧
        c.effectiveStake ≤ d.effectiveStake ∧
        (n.registrationTime.toNat + s.parts.network.intervalDuration.toNat ≤ s.slotTime.toNat →
          c.effectiveStake = d.effectiveStake) ∧
        (s.slotTime ≤ n.registrationTime → c.effectiveStake = 0)) ∧
    ∀ (s' : Snapshot) (n n' : NodeDetails), DifferInNode s s' n n' →
      n.rplStake ≤ n'.rplStake → n'.registrationTime ≤ n.registrationTime → ∀ scale,
      ∃ e e' c c', s.effectiveStakes scale = .ok e ∧ s'.effectiveStakes scale = .ok e' ∧
        e.nodes.get? n.address = some c ∧ e'.nodes.get? n.address = some c' ∧
        c.effectiveStake ≤ c'.effectiveStake ∧
        ∀ a, a ≠ n.address → e'.nodes.get? a = e.nodes.get? a := by
  constructor
  · refine ⟨_, _, effectiveStakes_eq_ok hprice fun _ => hduration,
      effectiveStakes_eq_ok hprice nofun, fun n hn => ⟨_, _, get?_collaterals hn,
      get?_collaterals hn, ?_, fun hwhole => ?_, fun hlate => ?_⟩⟩
    · exact scaledStake_le
    · refine scaledStake_of_le (UInt64.le_iff_toNat_le.2 ?_)
      rw [UInt64Sat.toNat_sub]
      omega
    · have hnone : s.registeredFor n = 0 := by
        rw [UInt64.le_iff_toNat_le] at hlate
        rw [← UInt64.toNat_inj, registeredFor, UInt64Sat.toNat_sub, UInt64.toNat_zero]
        omega
      rw [effectiveStake_collateralOf_true, hnone, scaledStake_zero hduration]
  · intro s' n n' h hstake htime scale
    have hprice' : s'.parts.network.rplPrice ≠ 0 := h.network ▸ hprice
    have hduration' : s'.parts.network.intervalDuration ≠ 0 := h.network ▸ hduration
    have hfound : (KeyMap.ofList (s'.collaterals scale)).get? n.address =
        some (s.collateralOf scale n') := by
      rw [← h.address, ← h.collateralOf_eq]
      exact get?_collaterals h.mem_right
    exact ⟨_, _, _, _, effectiveStakes_eq_ok hprice fun _ => hduration,
      effectiveStakes_eq_ok hprice' fun _ => hduration', get?_collaterals h.mem_left, hfound,
      s.collateralOf_mono scale h.address hstake htime,
      fun a ha => h.get?_collaterals_of_ne scale ha⟩

namespace Newcomer

/-- A node that joined at a time with a stake of so much RPL. -/
def node (joined rpl : UInt64) : NodeDetails := ⟨.ofNat 1, true, joined, etherToWei rpl, false, 2⟩

/-- Two nodes, the first of which is new in an interval of 40000 seconds that ends at 38400. -/
def parts (joined rpl : UInt64) : SnapshotParts :=
  { TwoStakers.parts with
    network := { TwoStakers.parts.network with intervalDuration := 40000 }
    nodes := [node joined rpl, ⟨.ofNat 2, true, 0, etherToWei 300, false, 3⟩] }

/-- It was registered for a quarter of the interval, with 400 RPL. -/
def late : Snapshot := .ofCoherent (parts 28400 400) (by decide +kernel)

/-- It was registered for half of the interval, with 600 RPL. -/
def early : Snapshot := .ofCoherent (parts 18400 600) (by decide +kernel)

end Newcomer

open Newcomer in
/-- A node that joins earlier with more RPL has a higher stake, and the other node has what it
had. -/
theorem stakes_of_newcomer :
    late.parts.network.rplPrice ≠ 0 ∧ late.parts.network.intervalDuration ≠ 0 ∧
      DifferInNode late early (node 28400 400) (node 18400 600) ∧
      ∃ e e' c c', late.effectiveStakes true = .ok e ∧ early.effectiveStakes true = .ok e' ∧
        e.nodes.get? (.ofNat 1) = some c ∧ e'.nodes.get? (.ofNat 1) = some c' ∧
        c.effectiveStake ≤ c'.effectiveStake ∧
        c.effectiveStake = etherToWei 100 ∧ c'.effectiveStake = etherToWei 300 ∧
        e'.nodes.get? (.ofNat 2) = e.nodes.get? (.ofNat 2) := by
  have hprice : late.parts.network.rplPrice ≠ 0 := by decide
  have hduration : late.parts.network.intervalDuration ≠ 0 := by decide
  have hdiffer : DifferInNode late early (node 28400 400) (node 18400 600) :=
    ⟨rfl, ⟨[], _, rfl, rfl⟩, rfl⟩
  obtain ⟨-, hrecords⟩ := effectiveStakes_monotone late hprice hduration
  obtain ⟨e, e', c, c', he, he', hc, hc', hle, hothers⟩ :=
    hrecords early _ _ hdiffer (by decide +kernel) (by decide +kernel) true
  have hstake : (e.nodes.get? (node 28400 400).address).map NodeCollateral.effectiveStake =
      some (etherToWei 100) := by
    cases he
    decide +kernel
  have hstake' : (e'.nodes.get? (node 28400 400).address).map NodeCollateral.effectiveStake =
      some (etherToWei 300) := by
    cases he'
    decide +kernel
  rw [hc] at hstake
  rw [hc'] at hstake'
  exact ⟨hprice, hduration, hdiffer, e, e', c, c', he, he', hc, hc', hle, Option.some.inj hstake,
    Option.some.inj hstake', hothers _ (by decide)⟩

end PoolKeeper.Snapshot
