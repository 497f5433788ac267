/-
The first slot with a block, and the first slot of an interval.

A scan goes on to the next slot while there is no block and the epoch is not
after the head's. Where it stops, and all that it asks for on the way, is told
by `Scanned`; `Scanned.next` is one step of it, and `scan_runs` the induction, on
the slots that are left in these epochs. As long as these are slots of 64 bits
the scan stops by its own condition: `overflow` is not among its ends, and it
fails only where a look-up does.

The slots from the start of the next epoch on are those of later epochs
(`firstSlotOf_next_le_iff`), so that an interval begins after the one before
it (`startSlotAfter_later_iff`). Epochs of no slots are taken to have one when a
slot's epoch is looked up, but not when an epoch's first slot is: then an
interval is looked for from slot zero on, and begins before the end of the one
before it (`interval_starts_before_previous`).
-/
import Mathlib.Data.List.Iterate
import Mathlib.Order.Bounds.Defs
import PoolKeeper.InMemory.Beacon
import PoolKeeper.Locate.Slot
import PoolKeeper.Proofs.Transcript

namespace PoolKeeper

/-! ## Slots and epochs -/

namespace BeaconConfig
variable {config : BeaconConfig} {slot n epoch : UInt64}

/-- How many slots an epoch is taken to have. -/
def epochLength (config : BeaconConfig) : Nat := max config.slotsPerEpoch.toNat 1

theorem toNat_max_slotsPerEpoch (config : BeaconConfig) :
    (max config.slotsPerEpoch 1).toNat = config.epochLength := by
  unfold epochLength
  rw [UInt64.max_def]
  split <;> rename_i h <;> rw [UInt64.le_iff_toNat_le, UInt64.toNat_one] at h
  · rw [UInt64.toNat_one]
    omega
  · omega

theorem epochLength_pos (config : BeaconConfig) : 0 < config.epochLength := by
  unfold epochLength
  omega

theorem toNat_epochOf : (config.epochOf slot).toNat = slot.toNat / config.epochLength := by
  rw [epochOf, UInt64.toNat_div, toNat_max_slotsPerEpoch]

/-- The slots up to the end of an epoch. -/
theorem epochOf_le_iff :
    config.epochOf slot ≤ epoch ↔ slot.toNat < (epoch.toNat + 1) * config.epochLength := by
  rw [UInt64.le_iff_toNat_le, toNat_epochOf, ← Nat.div_lt_iff_lt_mul config.epochLength_pos]
  omega

theorem lt_of_epochOf_lt (h : config.epochOf slot < config.epochOf n) : slot < n := by
  rw [UInt64.lt_iff_toNat_lt, toNat_epochOf, toNat_epochOf] at h
  rw [UInt64.lt_iff_toNat_lt]
  by_contra hle
  have := Nat.div_le_div_right (c := config.epochLength) (Nat.le_of_not_lt hle)
  omega

/-- The first slot of the epoch after that of a slot. -/
theorem toNat_firstSlotOf_next (hfits : slot.toNat + config.slotsPerEpoch.toNat + 1 < 2 ^ 64) :
    (config.firstSlotOf (config.epochOf slot + 1)).toNat =
      (slot.toNat / config.epochLength + 1) * config.slotsPerEpoch.toNat := by
  have hepoch : slot.toNat / config.epochLength ≤ slot.toNat := Nat.div_le_self _ _
  have hbefore : slot.toNat / config.epochLength * config.slotsPerEpoch.toNat ≤ slot.toNat :=
    Nat.le_trans (Nat.mul_le_mul_left _ (Nat.le_max_left _ 1)) (Nat.div_mul_le_self _ _)
  have hnext : (config.epochOf slot + 1).toNat = slot.toNat / config.epochLength + 1 := by
    rw [UInt64.toNat_add, toNat_epochOf, UInt64.toNat_one, Nat.mod_eq_of_lt (by omega)]
  rw [firstSlotOf, UInt64Sat.toNat_mul, hnext, Nat.add_mul, Nat.one_mul]
  omega

/-- **The slots of later epochs** are those from the first slot of the next epoch on. -/
theorem firstSlotOf_next_le_iff (hslots : config.slotsPerEpoch ≠ 0)
    (hfits : slot.toNat + config.slotsPerEpoch.toNat + 1 < 2 ^ 64) :
    config.firstSlotOf (config.epochOf slot + 1) ≤ n ↔ config.epochOf slot < config.epochOf n := by
  have hlength : config.slotsPerEpoch.toNat = config.epochLength := by
    have hne : config.slotsPerEpoch.toNat ≠ 0 := fun h => hslots (UInt64.toNat_inj.1 h)
    unfold epochLength
    omega
  rw [UInt64.le_iff_toNat_le, toNat_firstSlotOf_next hfits, UInt64.lt_iff_toNat_lt, toNat_epochOf,
    toNat_epochOf, hlength, ← Nat.le_div_iff_mul_le config.epochLength_pos]
  omega

end BeaconConfig

/-- The blocks of a consensus chain, its timing and its head. -/
structure BeaconChain where
  config : BeaconConfig
  head : BeaconHead
  block : UInt64 → Option BeaconBlock

namespace BeaconChain
variable (c : BeaconChain) (start : UInt64)

/-- What is told of the chain is so: a reply is a failure, or what the chain has. -/
def Tells : Exchange Beacon → Prop
  | ⟨.block slot, reply⟩ => ∀ b, reply = .ok b → b = c.block slot
  | ⟨.head, reply⟩ => ∀ h, reply = .ok h → h = c.head
  | ⟨.config, reply⟩ => ∀ g, reply = .ok g → g = c.config
  | ⟨.validators _ _, _⟩ => True

/-- How many slots there are up to the end of the head's epoch. -/
def reach : Nat := (c.head.epoch.toNat + 1) * c.config.epochLength

/-- The slots with a block, from one slot on. -/
def filledFrom : Set UInt64 := {n | start ≤ n ∧ (c.block n).isSome}

/-- The look-ups of so many slots, each once and in order. -/
def lookUps (count : Nat) : List (Exchange Beacon) :=
  (List.iterate (· + 1) start count).map fun n => ⟨.block n, .ok (c.block n)⟩

/-- How a scan from a slot ends, and all that is said in it: at the first slot with a block, after
the head's epoch, or with a look-up that fails. -/
inductive Scanned : List (Exchange Beacon) → Except LocateFault UInt64 → Prop
  | found (slot : UInt64) (hfirst : IsLeast (c.filledFrom start) slot)
    (hepoch : c.config.epochOf slot ≤ c.head.epoch) :
    Scanned (c.lookUps start (slot.toNat - start.toNat + 1)) (.ok slot)
  | headReached (slot : UInt64) (hslot : slot.toNat = max start.toNat c.reach)
    (hnone : ∀ n ∈ c.filledFrom start, c.head.epoch < c.config.epochOf n) :
    Scanned (c.lookUps start (slot.toNat - start.toNat)) (.error (.headReached slot))
  | failed (slot : UInt64) (e : Failure) (hstart : start ≤ slot)
    (hepoch : c.config.epochOf slot ≤ c.head.epoch) (hnone : ∀ n ∈ c.filledFrom start, slot ≤ n) :
    Scanned (c.lookUps start (slot.toNat - start.toNat) ++ [⟨.block slot, .error e⟩])
      (.error (.chain e))

variable {c} {start}

/-- The slot after one that is not past the head's epoch. -/
theorem toNat_next (hbelow : start.toNat < c.reach) (hfits : c.reach < 2 ^ 64) :
    (start + 1).toNat = start.toNat + 1 := by
  rw [UInt64.toNat_add, UInt64.toNat_one, Nat.mod_eq_of_lt (by omega)]

/-- Where there is no block at a slot, the slots with a block are those from the next one on. -/
theorem filledFrom_next (hempty : c.block start = none) (hbelow : start.toNat < c.reach)
    (hfits : c.reach < 2 ^ 64) : c.filledFrom (start + 1) = c.filledFrom start := by
  have hnext := toNat_next hbelow hfits
  ext n
  simp only [filledFrom, Set.mem_ofPred_eq, UInt64.le_iff_toNat_le, hnext]
  constructor
  · rintro ⟨hle, hfilled⟩
    exact ⟨by omega, hfilled⟩
  · rintro ⟨hle, hfilled⟩
    have hne : start.toNat ≠ n.toNat := by
      intro heq
      rw [← UInt64.toNat_inj.1 heq, hempty] at hfilled
      cases hfilled
    exact ⟨by omega, hfilled⟩

/-- **A step of a scan**: where there is no block at a slot, it goes on at the next. -/
theorem Scanned.next {log : List (Exchange Beacon)} {r : Except LocateFault UInt64}
    (hempty : c.block start = none) (hbelow : start.toNat < c.reach) (hfits : c.reach < 2 ^ 64)
    (h : c.Scanned (start + 1) log r) : c.Scanned start (⟨.block start, .ok none⟩ :: log) r := by
  have hnext := toNat_next hbelow hfits
  have hfrom := filledFrom_next hempty hbelow hfits
  have hlog : ∀ count, ⟨.block start, .ok none⟩ :: c.lookUps (start + 1) count =
      c.lookUps start (count + 1) := fun count => by rw [← hempty]; rfl
  cases h with
  | found slot hfirst hepoch =>
    have hle := UInt64.le_iff_toNat_le.1 hfirst.1.1
    have hcount : slot.toNat - (start + 1).toNat + 1 = slot.toNat - start.toNat := by omega
    rw [hlog, hcount]
    exact .found slot (hfrom ▸ hfirst) hepoch
  | headReached slot hslot hnone =>
    have hcount : slot.toNat - (start + 1).toNat + 1 = slot.toNat - start.toNat := by omega
    rw [hlog, hcount]
    exact .headReached slot (by omega) (hfrom ▸ hnone)
  | failed slot e hstart hepoch hnone =>
    have hle := UInt64.le_iff_toNat_le.1 hstart
    have hcount : slot.toNat - (start + 1).toNat + 1 = slot.toNat - start.toNat := by omega
    rw [← List.cons_append, hlog, hcount]
    exact .failed slot e (UInt64.le_iff_toNat_le.2 (by omega)) hepoch (hfrom ▸ hnone)

/-! ## A chain held in memory -/

/-- The chain whose blocks are held. -/
def ofConsensus (held : InMemory.Consensus) : BeaconChain where
  config := held.config
  head := held.head
  block slot := (held.blocks.lookup slot).map (⟨slot, ·⟩)

theorem guarded_eq_ok {α : Type} {held : InMemory.Consensus} {key : String} {a b : α}
    (h : held.guarded key a = .ok b) : b = a := by
  rw [InMemory.Consensus.guarded] at h
  split at h <;> cases h
  rfl

theorem tells_ofConsensus (held : InMemory.Consensus) (call : Beacon.Call) :
    (ofConsensus held).Tells ⟨call, held.answer call⟩ := by
  cases call with
  | block slot => exact fun _ => guarded_eq_ok
  | head => exact fun _ => guarded_eq_ok
  | config => exact fun _ => guarded_eq_ok
  | validators keys slot => trivial

end BeaconChain

namespace Locate
variable {c : BeaconChain} {start : UInt64} {log : List (Exchange Beacon)}

/-- **A call of a search**: it fails, or tells what the chain has, with which the search goes on. -/
theorem runs_told_bind {α β : Type} {a : α} (p : Attempt Beacon Failure α)
    (said : Except Failure α → Exchange Beacon) (hsaid : ∀ q l, p.Runs l q → l = [said q])
    (htells : ∀ b, c.Tells (said (.ok b)) → b = a) {next : α → Attempt Beacon LocateFault β}
    {r : Except LocateFault β} (hruns : (p.mapError .chain >>= next).Runs log r)
    (htold : ∀ x ∈ log, c.Tells x) :
    (∃ e, log = [said (.error e)] ∧ r = .error (.chain e)) ∨
      ∃ rest, (next a).Runs rest r ∧ (∀ x ∈ rest, c.Tells x) ∧ log = said (.ok a) :: rest := by
  obtain ⟨e, hcall, rfl⟩ | ⟨b, l, rest, hcall, hnext, rfl⟩ := Attempt.runs_mapError_bind.1 hruns
  · exact .inl ⟨e, hsaid _ _ hcall, rfl⟩
  · obtain rfl := hsaid _ l hcall
    obtain ⟨hfirst, hrest⟩ := List.forall_mem_cons.1 htold
    obtain rfl := htells b hfirst
    exact .inr ⟨rest, hnext, hrest, rfl⟩

theorem runs_block_bind {β : Type} {slot : UInt64}
    {next : Option BeaconBlock → Attempt Beacon LocateFault β} {r : Except LocateFault β}
    (hruns : ((Beacon.block slot).mapError .chain >>= next).Runs log r)
    (htold : ∀ x ∈ log, c.Tells x) :
    (∃ e, log = [⟨.block slot, .error e⟩] ∧ r = .error (.chain e)) ∨
      ∃ rest, (next (c.block slot)).Runs rest r ∧ (∀ x ∈ rest, c.Tells x) ∧
        log = ⟨.block slot, .ok (c.block slot)⟩ :: rest :=
  runs_told_bind (Beacon.block slot) (fun q => ⟨.block slot, q⟩)
    (fun _ _ => Program.runs_call.1) (fun b h => h b rfl) hruns htold

theorem runs_config_bind {β : Type} {next : BeaconConfig → Attempt Beacon LocateFault β}
    {r : Except LocateFault β} (hruns : (Beacon.config.mapError .chain >>= next).Runs log r)
    (htold : ∀ x ∈ log, c.Tells x) :
    (∃ e, log = [⟨.config, .error e⟩] ∧ r = .error (.chain e)) ∨
      ∃ rest, (next c.config).Runs rest r ∧ (∀ x ∈ rest, c.Tells x) ∧
        log = ⟨.config, .ok c.config⟩ :: rest :=
  runs_told_bind Beacon.config (fun q => ⟨.config, q⟩)
    (fun _ _ => Program.runs_call.1) (fun g h => h g rfl) hruns htold

/-- **The runs of a scan**, by induction on the slots that are left up to the end of the head's
epoch. While there are any the next slot has 64 bits, so that a scan never goes past the largest
one. -/
theorem scan_runs (hfits : c.reach < 2 ^ 64) {r : Except LocateFault UInt64}
    (hruns : (scan c.config c.head.epoch start).Runs log r) (htold : ∀ x ∈ log, c.Tells x) :
    c.Scanned start log r := by
  have hin : ∀ slot, c.config.epochOf slot ≤ c.head.epoch ↔ slot.toNat < c.reach :=
    fun slot => BeaconConfig.epochOf_le_iff
  have hfrom : ∀ {slot}, ∀ n ∈ c.filledFrom slot, slot ≤ n := fun n hn => hn.1
  induction hleft : c.reach - start.toNat generalizing start log with
  | zero =>
    have hbeyond : ¬ c.config.epochOf start ≤ c.head.epoch := by
      rw [hin]
      omega
    rw [scan, if_neg hbeyond] at hruns
    obtain ⟨rfl, rfl⟩ := Attempt.runs_throw.1 hruns
    have hnone : ∀ n ∈ c.filledFrom start, c.head.epoch < c.config.epochOf n := by
      intro n hn
      have hle := UInt64.le_iff_toNat_le.1 hn.1
      rw [← UInt64.not_le, hin]
      omega
    have hscanned := BeaconChain.Scanned.headReached start (by omega) hnone
    rwa [Nat.sub_self] at hscanned
  | succ left ih =>
    have hepoch : c.config.epochOf start ≤ c.head.epoch := (hin start).2 (by omega)
    rw [scan, if_pos hepoch] at hruns
    obtain ⟨e, rfl, rfl⟩ | ⟨rest, hnext, hrest, rfl⟩ := runs_block_bind hruns htold
    · have hscanned := BeaconChain.Scanned.failed start e (UInt64.le_refl _) hepoch hfrom
      rwa [Nat.sub_self] at hscanned
    cases hblock : c.block start with
    | some b =>
      rw [hblock] at hnext
      obtain ⟨rfl, rfl⟩ := Attempt.runs_pure.1 hnext
      have hscanned := BeaconChain.Scanned.found start ⟨⟨UInt64.le_refl _, by simp [hblock]⟩, hfrom⟩
        hepoch
      rwa [Nat.sub_self, BeaconChain.lookUps, List.iterate, List.iterate, List.map_singleton,
        hblock] at hscanned
    | none =>
      rw [hblock] at hnext
      have hsucc : (start + 1).toNat = start.toNat + 1 := BeaconChain.toNat_next (by omega) hfits
      have hlater : start < start + 1 := by
        rw [UInt64.lt_iff_toNat_lt, hsucc]
        exact Nat.lt_succ_self _
      dsimp only at hnext
      rw [dif_pos hlater] at hnext
      exact (ih hnext hrest (by omega)).next hblock (by omega) hfits

/-- **The runs of a search for a slot** ask for the head and the timing, and then scan. -/
theorem firstFilledSlot_runs (hfits : c.reach < 2 ^ 64) {r : Except LocateFault UInt64}
    (hruns : (firstFilledSlot start).Runs log r) (htold : ∀ x ∈ log, c.Tells x) :
    (∃ e, log = [⟨.head, .error e⟩] ∧ r = .error (.chain e)) ∨
    (∃ e, log = [⟨.head, .ok c.head⟩, ⟨.config, .error e⟩] ∧ r = .error (.chain e)) ∨
    ∃ lookUps, log = ⟨.head, .ok c.head⟩ :: ⟨.config, .ok c.config⟩ :: lookUps ∧
      c.Scanned start lookUps r := by
  obtain ⟨e, rfl, rfl⟩ | ⟨rest, hnext, hrest, rfl⟩ := runs_told_bind Beacon.head
    (fun q => ⟨.head, q⟩) (fun _ _ => Program.runs_call.1) (fun h hh => hh h rfl) hruns htold
  · exact .inl ⟨e, rfl, rfl⟩
  obtain ⟨e, rfl, rfl⟩ | ⟨lookUps, hscan, hlookUps, rfl⟩ := runs_config_bind hnext hrest
  · exact .inr (.inl ⟨e, rfl, rfl⟩)
  exact .inr (.inr ⟨lookUps, rfl, scan_runs hfits hscan hlookUps⟩)

/-- **A search for a slot ends at the first slot with a block**, from its start on, if the epoch of
that slot is not after the head's; and otherwise behind the head's epoch, or where it started. It
asks for the block of every slot on the way, once and in order, and fails with the first call that
does. -/
theorem firstFilledSlot_scans (c : BeaconChain) (hfits : c.reach < 2 ^ 64)
    (answer : List (Exchange Beacon) → (call : Beacon.Call) → Beacon.Reply call)
    (htold : ∀ said call, c.Tells ⟨call, answer said call⟩) (start : UInt64) :
    let run := (firstFilledSlot start).runIn (.recording answer) []
    (∃ e, run.2 = [⟨.head, .error e⟩] ∧ run.1 = .error (.chain e)) ∨
    (∃ e, run.2 = [⟨.head, .ok c.head⟩, ⟨.config, .error e⟩] ∧ run.1 = .error (.chain e)) ∨
    ∃ lookUps, run.2 = ⟨.head, .ok c.head⟩ :: ⟨.config, .ok c.config⟩ :: lookUps ∧
      c.Scanned start lookUps run.1 := by
  obtain ⟨hruns, hsaid⟩ := Program.runs_recording htold (firstFilledSlot start).outcome
  exact firstFilledSlot_runs hfits hruns hsaid

/-- The slots between two blocks span an epoch, and one of them cannot be looked up. -/
theorem scans_of_gap :
    let held : InMemory.Consensus :=
      ⟨[(1, 10), (9, 90)], .empty, ⟨0, 12, 4⟩, ⟨9, 2, 0⟩, [("block:3", "gone")]⟩
    let c := BeaconChain.ofConsensus held
    let run := fun start => (firstFilledSlot start).runIn (.recording fun _ => held.answer) []
    c.reach < 2 ^ 64 ∧ (∀ call, c.Tells ⟨call, held.answer call⟩) ∧
      (run 4).1 = .ok 9 ∧ IsLeast (c.filledFrom 4) 9 ∧
      (run 10).1 = .error (.headReached 12) ∧ (run 2).1 = .error (.chain (.text "gone")) := by
  intro held c run
  have hfits : c.reach < 2 ^ 64 := by decide
  have htold : ∀ call, c.Tells ⟨call, held.answer call⟩ := BeaconChain.tells_ofConsensus held
  have hfound : (run 4).1 = .ok 9 := by decide +kernel
  refine ⟨hfits, htold, hfound, ?_, by decide +kernel, by decide +kernel⟩
  obtain ⟨e, -, h⟩ | ⟨e, -, h⟩ | ⟨lookUps, -, hscanned⟩ :=
    firstFilledSlot_scans c hfits (fun _ => held.answer) (fun _ => htold) 4
  · exact absurd (hfound.symm.trans h) nofun
  · exact absurd (hfound.symm.trans h) nofun
  · change c.Scanned 4 lookUps (run 4).1 at hscanned
    rw [hfound] at hscanned
    cases hscanned with
    | found slot hfirst hepoch => exact hfirst

/-- **An interval starts at the first slot with a block** from the start of the next epoch on, if
the previous interval's last slot has a block too. -/
theorem startSlotAfter_runs (hreach : c.reach < 2 ^ 64) {previous : RewardsEvent} {slot : UInt64}
    (hruns : (startSlotAfter previous).Runs log (.ok slot)) (htold : ∀ x ∈ log, c.Tells x) :
    (c.block previous.consensusBlock).isSome ∧
      IsLeast (c.filledFrom (c.config.firstSlotOf (c.config.epochOf previous.consensusBlock + 1)))
        slot := by
  obtain ⟨e, -, h⟩ | ⟨rest, hnext, hrest, -⟩ := runs_block_bind hruns htold
  · cases h
  cases hblock : c.block previous.consensusBlock with
  | none =>
    rw [hblock] at hnext
    cases (Attempt.runs_throw.1 hnext).2
  | some b =>
    rw [hblock] at hnext
    obtain ⟨e, -, h⟩ | ⟨search, hsearch, hsaid, -⟩ := runs_config_bind hnext hrest
    · cases h
    obtain ⟨e, -, h⟩ | ⟨e, -, h⟩ | ⟨lookUps, -, hscanned⟩ :=
      firstFilledSlot_runs hreach hsearch hsaid
    · cases h
    · cases h
    · cases hscanned with
      | found slot hfirst hepoch => exact ⟨rfl, hfirst⟩

/-- **Intervals do not overlap** while epochs have slots: an interval starts at the first slot with
a block in an epoch after that of the previous interval's last slot. If epochs have no slots, it
starts at the first slot with a block that there is, which is never after that last slot. -/
theorem startSlotAfter_later_iff (c : BeaconChain) (hreach : c.reach < 2 ^ 64)
    (previous : RewardsEvent)
    (hfits : previous.consensusBlock.toNat + c.config.slotsPerEpoch.toNat + 1 < 2 ^ 64)
    (answer : List (Exchange Beacon) → (call : Beacon.Call) → Beacon.Reply call)
    (htold : ∀ said call, c.Tells ⟨call, answer said call⟩) {slot : UInt64}
    (h : ((startSlotAfter previous).runIn (.recording answer) []).1 = .ok slot) :
    (c.block slot).isSome ∧
    (previous.consensusBlock < slot ↔ c.config.slotsPerEpoch ≠ 0) ∧
    (c.config.slotsPerEpoch ≠ 0 →
      c.config.epochOf previous.consensusBlock < c.config.epochOf slot ∧
      ∀ n, (c.block n).isSome →
        c.config.epochOf previous.consensusBlock < c.config.epochOf n → slot ≤ n) ∧
    (c.config.slotsPerEpoch = 0 → IsLeast {n | (c.block n).isSome} slot) := by
  obtain ⟨hruns, hsaid⟩ := Program.runs_recording htold (startSlotAfter previous).outcome
  change (startSlotAfter previous).Runs _ ((startSlotAfter previous).runIn (.recording answer) []).1
    at hruns
  rw [h] at hruns
  obtain ⟨hprevious, hleast⟩ := startSlotAfter_runs hreach hruns hsaid
  by_cases hslots : c.config.slotsPerEpoch = 0
  · have hstart : c.config.firstSlotOf (c.config.epochOf previous.consensusBlock + 1) = 0 := by
      rw [← UInt64.toNat_inj, BeaconConfig.toNat_firstSlotOf_next hfits, hslots]
      rfl
    rw [hstart] at hleast
    have hall : IsLeast {n | (c.block n).isSome} slot :=
      ⟨hleast.1.2, fun n hn => hleast.2 ⟨UInt64.zero_le, hn⟩⟩
    refine ⟨hleast.1.2, ?_, fun hne => absurd hslots hne, fun _ => hall⟩
    exact iff_of_false (UInt64.not_lt.2 (hall.2 hprevious)) (fun hne => hne hslots)
  · have hlater : ∀ n, c.config.firstSlotOf (c.config.epochOf previous.consensusBlock + 1) ≤ n ↔
        c.config.epochOf previous.consensusBlock < c.config.epochOf n :=
      fun n => BeaconConfig.firstSlotOf_next_le_iff hslots hfits
    have hepoch := (hlater slot).1 hleast.1.1
    refine ⟨hleast.1.2, iff_of_true (BeaconConfig.lt_of_epochOf_lt hepoch) hslots, fun _ => ?_,
      fun hzero => absurd hzero hslots⟩
    exact ⟨hepoch, fun n hn hn' => hleast.2 ⟨(hlater n).2 hn', hn⟩⟩

/-- An event that was settled at a slot. -/
def settledAt (slot : UInt64) : RewardsEvent := ⟨1, 0, 0, slot, 0, .ofNat 0, "", 1⟩

/-- The next epoch starts at slot 4, and has no block before slot 6. -/
theorem interval_starts_after_previous :
    let held : InMemory.Consensus :=
      ⟨[(2, 20), (3, 30), (6, 60)], .empty, ⟨0, 12, 4⟩, ⟨6, 1, 0⟩, []⟩
    let c := BeaconChain.ofConsensus held
    let run := (startSlotAfter (settledAt 2)).runIn (.recording fun _ => held.answer) []
    c.reach < 2 ^ 64 ∧
      (settledAt 2).consensusBlock.toNat + c.config.slotsPerEpoch.toNat + 1 < 2 ^ 64 ∧
      (∀ call, c.Tells ⟨call, held.answer call⟩) ∧ run.1 = .ok 6 ∧
      (settledAt 2).consensusBlock < 6 ∧
      c.config.epochOf (settledAt 2).consensusBlock < c.config.epochOf 6 := by
  intro held c run
  have hreach : c.reach < 2 ^ 64 := by decide
  have hfits : (settledAt 2).consensusBlock.toNat + c.config.slotsPerEpoch.toNat + 1 < 2 ^ 64 := by
    decide
  have htold : ∀ call, c.Tells ⟨call, held.answer call⟩ := BeaconChain.tells_ofConsensus held
  have hfound : run.1 = .ok 6 := by decide +kernel
  have hslots : c.config.slotsPerEpoch ≠ 0 := by decide
  obtain ⟨-, hlater, hepoch, -⟩ := startSlotAfter_later_iff c hreach (settledAt 2) hfits
    (fun _ => held.answer) (fun _ => htold) hfound
  exact ⟨hreach, hfits, htold, hfound, hlater.2 hslots, (hepoch hslots).1⟩

/-- **Where epochs have no slots, an interval starts before the end of the one before it.** The
previous interval was settled at slot 5, and slot 7 has a block, but the next interval starts at
slot 3. -/
theorem interval_starts_before_previous :
    let held : InMemory.Consensus :=
      ⟨[(3, 30), (5, 50), (7, 70)], .empty, ⟨0, 12, 0⟩, ⟨7, 7, 5⟩, []⟩
    let c := BeaconChain.ofConsensus held
    let run := (startSlotAfter (settledAt 5)).runIn (.recording fun _ => held.answer) []
    c.reach < 2 ^ 64 ∧
      (settledAt 5).consensusBlock.toNat + c.config.slotsPerEpoch.toNat + 1 < 2 ^ 64 ∧
      (∀ call, c.Tells ⟨call, held.answer call⟩) ∧ run.1 = .ok 3 ∧
      ¬ (settledAt 5).consensusBlock < 3 := by
  intro held c run
  exact ⟨by decide, by decide, BeaconChain.tells_ofConsensus held, by decide +kernel, by decide⟩

end Locate
end PoolKeeper
