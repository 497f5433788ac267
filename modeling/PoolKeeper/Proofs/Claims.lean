/-
What a node has claimed, read bit by bit from the storage.

An interval splits into a bucket, which names a storage word, and a bit of that
word. `getD_words` says that the words that are read, one for every bucket, are
looked up by the same split, and `mem_claimed_decode` and `mem_unclaimed_decode`
that the bits divide the intervals before the current one. `status_of_storage`
puts the read and the division together.
-/
import PoolKeeper.Claims
import PoolKeeper.InMemory.Chain
import PoolKeeper.Proofs.Surroundings

namespace PoolKeeper.Claims

/-! ## Intervals by their bits -/

/-- The intervals before the current one that pass a test. -/
def intervalsBefore (current : UInt64) (p : Nat → Bool) : List UInt64 :=
  ((List.range current.toNat).filter p).map UInt64.ofNat

theorem mem_intervalsBefore {current i : UInt64} {p : Nat → Bool} :
    i ∈ intervalsBefore current p ↔ i < current ∧ p i.toNat = true := by
  simp only [intervalsBefore, List.mem_map, List.mem_filter, List.mem_range]
  constructor
  · rintro ⟨n, ⟨hn, hp⟩, rfl⟩
    have hnat : (UInt64.ofNat n).toNat = n :=
      UInt64.toNat_ofNat_of_lt (Nat.lt_trans hn current.toNat_lt)
    rw [UInt64.lt_iff_toNat_lt, hnat]
    exact ⟨hn, hp⟩
  · rintro ⟨hi, hp⟩
    exact ⟨i.toNat, ⟨UInt64.lt_iff_toNat_lt.1 hi, hp⟩, UInt64.ofNat_toNat⟩

theorem ascending_intervalsBefore (current : UInt64) (p : Nat → Bool) :
    (intervalsBefore current p).Pairwise (· < ·) := by
  have hrange : ((List.range current.toNat).filter p).Pairwise (· < ·) :=
    List.pairwise_lt_range.filter p
  refine List.pairwise_map.2 (hrange.imp_of_mem fun {a b} ha hb hab => ?_)
  -- none of them is too large for 64 bits
  have hfits : ∀ n ∈ (List.range current.toNat).filter p, (UInt64.ofNat n).toNat = n :=
    fun n hn => UInt64.toNat_ofNat_of_lt
      (Nat.lt_trans (List.mem_range.1 (List.mem_filter.1 hn).1) current.toNat_lt)
  rwa [UInt64.lt_iff_toNat_lt, hfits a ha, hfits b hb]

theorem decode_eq (bitmaps : Array Word) (current : UInt64) :
    decode bitmaps current =
      ⟨intervalsBefore current (isClaimed bitmaps),
        intervalsBefore current fun i => !isClaimed bitmaps i⟩ := by
  simp only [decode, List.partition_eq_filter_filter, intervalsBefore]
  rfl

section Decode
variable {bitmaps : Array Word} {current i : UInt64}

theorem mem_claimed_decode :
    i ∈ (decode bitmaps current).claimed ↔ i < current ∧ isClaimed bitmaps i.toNat = true := by
  rw [decode_eq, mem_intervalsBefore]

theorem mem_unclaimed_decode :
    i ∈ (decode bitmaps current).unclaimed ↔ i < current ∧ isClaimed bitmaps i.toNat = false := by
  rw [decode_eq, mem_intervalsBefore, Bool.not_eq_true']

end Decode

/-! ## The words that are read -/

/-- The keys of a node's words up to the current interval, bucket by bucket. -/
def keysUpTo (node : Address) (current : UInt64) : List Hash :=
  (List.range (current.toNat / 256 + 1)).map fun b => bitmapKey node (UInt64.ofNat b)

theorem toNat_bucketCount (current : UInt64) :
    (bucketCount current).toNat = current.toNat / 256 + 1 := by
  have := current.toNat_lt
  rw [bucketCount, UInt64.toNat_add, UInt64.toNat_div]
  exact Nat.mod_eq_of_lt (by simp only [UInt64.reduceToNat]; omega)

theorem reads_eq (node : Address) (current : UInt64) :
    reads node current = (keysUpTo node current).map .storageUint := by
  rw [reads, toNat_bucketCount, keysUpTo, List.map_map]
  rfl

/-- **The word of an interval is the one under the key of its bucket.** -/
theorem getD_words (node : Address) {current i : UInt64} (h : i < current) (word : Hash → Word) :
    ((keysUpTo node current).map word).toArray.getD (i.toNat / 256) 0 =
      word (bitmapKey node (i / 256)) := by
  have hbucket : i.toNat / 256 < current.toNat / 256 + 1 :=
    Nat.lt_succ_of_le (Nat.div_le_div_right (Nat.le_of_lt (UInt64.lt_iff_toNat_lt.1 h)))
  have hkey : UInt64.ofNat (i.toNat / 256) = i / 256 :=
    UInt64.toNat_inj.1 (by
      rw [UInt64.toNat_div]
      exact UInt64.toNat_ofNat_of_lt (Nat.lt_of_le_of_lt (Nat.div_le_self _ _) i.toNat_lt))
  simp [keysUpTo, hbucket, hkey]

/-- The contracts reply to a batch of reads of the storage with one word for each, the one that is
stored at the block. -/
def ServesStorage (answer : List Chain.Call → (c : Chain.Call) → Chain.Reply c)
    (storage : Option UInt64 → Hash → Word) : Prop :=
  ∀ (said : List Chain.Call) (keys : List Hash) (block : Option UInt64),
    answer said (.readWords (keys.map .storageUint) block) = .ok (keys.map (storage block))

/-- Contracts in memory reply what they store, whatever the block. -/
theorem servesStorage_of_contracts {c : InMemory.Contracts} (hfailures : c.failures = [])
    (hwords : c.maxWords = none) :
    ServesStorage (fun _ => c.answer) fun _ key => (c.storage.get? key).getD 0 := by
  intro said keys block
  have hread : ∀ key, c.read (.storageUint key) = .ok ((c.storage.get? key).getD 0) := fun key => by
    rw [InMemory.Contracts.read, InMemory.Contracts.guarded, hfailures]
    rfl
  have hall : (keys.map .storageUint).mapM c.read =
      .ok (keys.map fun key => (c.storage.get? key).getD 0) := by
    induction keys with
    | nil => rfl
    | cons key keys ih =>
      rw [List.map_cons, List.mapM_cons, hread, ih]
      rfl
  show InMemory.Contracts.cut c.maxWords <$> (keys.map .storageUint).mapM c.read = _
  rw [hall, hwords]
  rfl

/-- One batch is read, and the words in it are divided. -/
theorem runIn_status {answer : List Chain.Call → (c : Chain.Call) → Chain.Reply c}
    {storage : Option UInt64 → Hash → Word} (h : ServesStorage answer storage) (node : Address)
    (current : UInt64) (block : Option UInt64) (said : List Chain.Call) :
    (status node current block).runIn (.noting answer) said =
      (.ok (decode ((keysUpTo node current).map (storage block)).toArray current),
        said ++ [.readWords ((keysUpTo node current).map .storageUint) block]) := by
  have hread : (Chain.readWords (reads node current) block).runIn (.noting answer) said =
      (.ok ((keysUpTo node current).map (storage block)),
        said ++ [.readWords ((keysUpTo node current).map .storageUint) block]) := by
    rw [reads_eq, ← h said]
    rfl
  exact Attempt.runIn_bind_ok (Attempt.runIn_mapError_ok hread _) _

/-- **A node's claims are those of the storage.** One batch is read, at the given block: the words
of all buckets up to that of the current interval, in order. The intervals before the current one
are divided into two ascending lists, and an interval is claimed just when its bit is set in the
word of its bucket. -/
theorem status_of_storage {answer : List Chain.Call → (c : Chain.Call) → Chain.Reply c}
    {storage : Option UInt64 → Hash → Word} (h : ServesStorage answer storage) (node : Address)
    (current : UInt64) (block : Option UInt64) (said : List Chain.Call) :
    ∃ s, (status node current block).runIn (.noting answer) said =
        (.ok s, said ++ [.readWords ((List.range (current.toNat / 256 + 1)).map fun b =>
          .storageUint (bitmapKey node (UInt64.ofNat b))) block]) ∧
      s.claimed.Pairwise (· < ·) ∧ s.unclaimed.Pairwise (· < ·) ∧
      (∀ i ∈ s.claimed, i ∉ s.unclaimed) ∧
      (∀ i, i ∈ s.claimed ∨ i ∈ s.unclaimed ↔ i < current) ∧
      ∀ i, i ∈ s.claimed ↔
        i < current ∧
          (storage block (bitmapKey node (i / 256))).getLsbD (i.toNat % 256) = true := by
  have hcalls : (keysUpTo node current).map ReadCall.storageUint =
      (List.range (current.toNat / 256 + 1)).map fun b =>
        .storageUint (bitmapKey node (UInt64.ofNat b)) := List.map_map
  rw [← hcalls]
  refine ⟨_, runIn_status h node current block said, ?_, ?_, ?_, fun i => ?_, fun i => ?_⟩
  · rw [decode_eq]
    exact ascending_intervalsBefore _ _
  · rw [decode_eq]
    exact ascending_intervalsBefore _ _
  · intro i hclaimed hunclaimed
    have hset := (mem_claimed_decode.1 hclaimed).2
    rw [(mem_unclaimed_decode.1 hunclaimed).2] at hset
    cases hset
  · rw [mem_claimed_decode, mem_unclaimed_decode, ← and_or_left]
    cases isClaimed _ i.toNat <;> simp
  · rw [mem_claimed_decode]
    refine and_congr_right fun hi => ?_
    rw [isClaimed, bucketSize, getD_words node hi]

/-- The current interval is the first of its bucket: the word of that bucket is read, though none
of its intervals is over. -/
theorem status_at_start_of_bucket :
    let node : Address := .ofNat 7
    let c : InMemory.Contracts := { InMemory.Contracts.initial with
      storage := .ofList [(bitmapKey node 0, 0b110), (bitmapKey node 1, 1)] }
    ServesStorage (fun _ => c.answer) (fun _ key => (c.storage.get? key).getD 0) ∧
    ∃ s, (status node 512 (some 900)).runIn (.noting fun _ => c.answer) [] =
        (.ok s, [.readWords [.storageUint (bitmapKey node 0), .storageUint (bitmapKey node 1),
          .storageUint (bitmapKey node 2)] (some 900)]) ∧
      256 ∈ s.claimed ∧ 255 ∈ s.unclaimed ∧ 512 ∉ s.claimed ∧ 512 ∉ s.unclaimed := by
  intro node c
  have hserves := servesStorage_of_contracts (c := c) rfl rfl
  refine ⟨hserves, ?_⟩
  obtain ⟨s, hrun, -, -, -, hall, hbits⟩ := status_of_storage hserves node 512 (some 900) []
  have hnone : ¬(512 ∈ s.claimed ∨ 512 ∈ s.unclaimed) := by
    rw [hall]
    decide
  refine ⟨s, hrun, (hbits 256).2 ⟨by decide, by decide +kernel⟩, ?_, not_or.1 hnone⟩
  refine ((hall 255).2 (by decide)).resolve_left fun hclaimed => ?_
  have hset := ((hbits 255).1 hclaimed).2
  revert hset
  decide +kernel

end PoolKeeper.Claims
