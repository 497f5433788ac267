/-
What is compressed here is decompressed to what it was (`decompress_compress`).

`At data i bs` says that bytes stand at a position; each reader has one lemma
on what it makes of them, and only these lemmas look into the data.
-/
import PoolKeeper.Zstd.Frame

namespace PoolKeeper.Zstd

/-- The bytes `bs` stand in `data` from position `i` on. -/
def At (data : ByteArray) (i : Nat) (bs : Bytes) : Prop :=
  ∃ rest, data.data.toList.drop i = bs ++ rest

namespace At
variable {data : ByteArray} {i : Nat} {b : UInt8} {bs cs : Bytes}

theorem whole (bs : Bytes) : At bs.toByteArray 0 bs := ⟨[], by simp⟩

theorem left (h : At data i (bs ++ cs)) : At data i bs := by
  obtain ⟨rest, h⟩ := h
  exact ⟨cs ++ rest, by rw [h, List.append_assoc]⟩

theorem right (h : At data i (bs ++ cs)) : At data (i + bs.length) cs := by
  obtain ⟨rest, h⟩ := h
  refine ⟨rest, ?_⟩
  rw [← List.drop_drop, h, List.append_assoc, List.drop_left]

theorem tail (h : At data i (b :: bs)) : At data (i + 1) bs :=
  @right data i [b] bs h

theorem byteAt_eq (h : At data i (b :: bs)) : byteAt data i = b := by
  obtain ⟨rest, h⟩ := h
  have hi : data.data.toList[i]? = some b := by
    rw [← List.head?_drop, h]
    rfl
  obtain ⟨hlt, hb⟩ := List.getElem?_eq_some_iff.1 hi
  have hsize : i < data.size := hlt
  rw [byteAt, dif_pos hsize]
  exact hb

theorem le_size (h : At data i (b :: bs)) : i + (b :: bs).length ≤ data.size := by
  obtain ⟨rest, h⟩ := h
  have hlen := congrArg List.length h
  have hsize : data.data.toList.length = data.size := rfl
  simp only [List.length_drop, List.length_append, List.length_cons] at hlen ⊢
  omega

end At

variable {data : ByteArray} {i : Nat} {bs : Bytes}

/-- A number is read as its bytes, the first of them lowest. -/
theorem littleEndian_eq (h : At data i bs) :
    littleEndian data i bs.length = Bytes.toNat bs.reverse := by
  induction bs generalizing i with
  | nil => rfl
  | cons b bs ih =>
    have hstep : littleEndian data i (bs.length + 1) =
        littleEndian data (i + 1) bs.length * 256 + (byteAt data i).toNat := by
      simp only [littleEndian, List.range_succ_eq_map, List.foldr_cons, List.foldr_map,
        Nat.add_zero, Nat.succ_eq_add_one]
      congr 3
      funext k v
      rw [Nat.add_assoc, Nat.add_comm 1 k]
    rw [List.length_cons, hstep, ih h.tail, h.byteAt_eq, List.reverse_cons, Bytes.toNat,
      Bytes.toNat, List.foldl_append]
    rfl

theorem pushRange_eq (out : ByteArray) (h : At data i bs) :
    pushRange out data i bs.length = out ++ bs.toByteArray := by
  induction bs generalizing i out with
  | nil => simp [pushRange]
  | cons b bs ih =>
    have hb : out.push b = out ++ [b].toByteArray := by
      apply ByteArray.ext
      simp
    rw [List.length_cons, pushRange, h.byteAt_eq, ih _ h.tail, hb, ByteArray.append_assoc,
      ← List.toByteArray_append, List.singleton_append]

/-! ## Stored blocks -/

/-- The header of a block: its size, its kind (zero: stored) and whether it is the last one. -/
def storedHeader (size last : Nat) : Bytes := (Bytes.bigEndian 3 (size * 8 + last)).reverse

theorem storedBlocks_of_le (h : bs.length ≤ maxBlockSize) :
    storedBlocks bs = storedHeader bs.length 1 ++ bs := by
  rw [storedBlocks, dif_neg (by omega), Nat.min_eq_left h, storedHeader]

theorem storedBlocks_of_lt (h : maxBlockSize < bs.length) :
    storedBlocks bs = storedHeader maxBlockSize 0 ++
      (bs.take maxBlockSize ++ storedBlocks (bs.drop maxBlockSize)) := by
  rw [storedBlocks, dif_pos h, Nat.min_eq_right (Nat.le_of_lt h), storedHeader, List.append_assoc]

@[simp] theorem length_storedHeader (size last : Nat) : (storedHeader size last).length = 3 := by
  simp [storedHeader]

theorem littleEndian_storedHeader {size last : Nat} (hsize : size ≤ maxBlockSize)
    (hlast : last < 8) (h : At data i (storedHeader size last)) :
    littleEndian data i 3 = size * 8 + last := by
  have hval := littleEndian_eq h
  rw [length_storedHeader, storedHeader, List.reverse_reverse, Bytes.toNat_bigEndian] at hval
  rw [hval, Nat.mod_eq_of_lt]
  rw [maxBlockSize] at hsize
  omega

/-- Reading one stored block: its bytes are put out, and it is told whether it is the last. -/
theorem readBlocks_stored {limit start last : Nat} {history : History} (out : ByteArray)
    (hbs : bs.length ≤ maxBlockSize) (hlimit : maxBlockSize ≤ limit) (hlast : last < 2)
    (h : At data i (storedHeader bs.length last ++ bs)) :
    readBlocks limit start history data i out =
      if last = 1 then .ok (out ++ bs.toByteArray, i + 3 + bs.length)
      else readBlocks limit start history data (i + 3 + bs.length) (out ++ bs.toByteArray) := by
  have hheader := littleEndian_storedHeader hbs (by omega) h.left
  have hright := h.right
  rw [length_storedHeader] at hright
  have hsize : i + 3 + bs.length ≤ data.size := by
    have hne : storedHeader bs.length last ++ bs ≠ [] := by
      rw [← List.length_pos_iff, List.length_append, length_storedHeader]
      omega
    obtain ⟨b, cs, hcons⟩ := List.exists_cons_of_ne_nil hne
    have hle := (hcons ▸ h).le_size
    rw [← hcons, List.length_append, length_storedHeader] at hle
    omega
  have h1 : (bs.length * 8 + last) / 8 = bs.length := by omega
  have h2 : (bs.length * 8 + last) / 2 % 4 = 0 := by omega
  have h3 : (bs.length * 8 + last) % 2 = last := by omega
  rw [readBlocks, dif_neg (by omega)]
  simp only [hheader, h1, h2, h3, Nat.zero_ne_one, if_false, pushRange_eq out hright]
  rw [if_neg (by omega), if_neg (by omega)]

/-- Reading all stored blocks, by induction on how many bytes they hold. -/
theorem readBlocks_storedBlocks {limit start : Nat} {history : History} (out : ByteArray)
    (hlimit : maxBlockSize ≤ limit) (h : At data i (storedBlocks bs)) :
    readBlocks limit start history data i out =
      .ok (out ++ bs.toByteArray, i + (storedBlocks bs).length) := by
  induction hn : bs.length using Nat.strongRecOn generalizing i bs out with
  | ind n ih =>
    by_cases hlt : maxBlockSize < bs.length
    · have htake : (bs.take maxBlockSize).length = maxBlockSize := by
        rw [List.length_take]
        omega
      have hdrop : (bs.drop maxBlockSize).length < n := by
        have hpos : 0 < maxBlockSize := by decide
        rw [List.length_drop]
        omega
      have hsize : storedHeader maxBlockSize 0 = storedHeader (bs.take maxBlockSize).length 0 := by
        rw [htake]
      rw [storedBlocks_of_lt hlt] at h ⊢
      rw [← List.append_assoc] at h
      have hblock := h.left
      have hrest := h.right
      rw [hsize] at hblock
      rw [List.length_append, length_storedHeader, ← Nat.add_assoc] at hrest
      rw [readBlocks_stored out (Nat.le_of_eq htake) hlimit Nat.zero_lt_two hblock,
        if_neg Nat.zero_ne_one, ih _ hdrop _ hrest rfl, ByteArray.append_assoc,
        ← List.toByteArray_append, List.take_append_drop]
      simp only [List.length_append, length_storedHeader, Nat.add_assoc]
    · rw [storedBlocks_of_le (by omega)] at h ⊢
      rw [readBlocks_stored out (by omega) hlimit Nat.one_lt_two h, if_pos rfl, List.length_append,
        length_storedHeader, Nat.add_assoc]

/-! ## Frames -/

/-- What `compress` writes in front of the blocks. -/
def storedFrameStart : Bytes := [0x28, 0xb5, 0x2f, 0xfd, 0x00, 0x38]

theorem compress_eq (bs : Bytes) : compress bs = storedFrameStart ++ storedBlocks bs := rfl

theorem readOpening_frame (h : At data 0 storedFrameStart) : readOpening data 0 = .frame := by
  have hsize := h.le_size
  have h1 := h.tail
  have h2 := h1.tail
  have h3 := h2.tail
  simp only [List.length_cons, List.length_nil] at hsize
  have hmin : min 4 (data.size - 0) = 4 := by omega
  have hstart : couldStart data 0 frameMagic 0 = true := by
    simp only [couldStart, hmin, List.range, List.range.loop, List.all_cons, List.all_nil,
      Nat.zero_add, h.byteAt_eq, h1.byteAt_eq, h2.byteAt_eq, h3.byteAt_eq]
    decide
  rw [readOpening, if_pos hstart, if_neg (by omega)]

theorem readHeader_frame (h : At data 4 [0x00, 0x38]) :
    readHeader data 4 = .ok ⟨none, maxBlockSize, false, 6⟩ := by
  have hsize := h.le_size
  simp only [List.length_cons, List.length_nil] at hsize
  have h0 := h.byteAt_eq
  have h1 := h.tail.byteAt_eq
  have hsize4 : ¬ data.size ≤ 4 := by omega
  have hsize6 : ¬ data.size < 6 := by omega
  simp [readHeader, h0, h1, hsize4, hsize6, littleEndian]
  rfl

theorem readFrame_compress (out : ByteArray) (h : At data 4 ([0x00, 0x38] ++ storedBlocks bs)) :
    readFrame data 4 out = .ok (out ++ bs.toByteArray, 6 + (storedBlocks bs).length) := by
  have hblocks := h.right
  rw [List.length_cons, List.length_singleton] at hblocks
  simp [readFrame, readHeader_frame h.left, bind, Except.bind,
    readBlocks_storedBlocks out (Nat.le_refl _) hblocks]
  rfl

/-- **What was compressed is decompressed again.** -/
theorem decompress_compress (bs : Bytes) : decompress (compress bs) = .ok bs := by
  have hwhole : At (compress bs).toByteArray 0 (compress bs) := .whole _
  have hsize : (compress bs).toByteArray.size = 6 + (storedBlocks bs).length := by
    rw [List.size_toByteArray, compress_eq, List.length_append]
    rfl
  have hmagic : At (compress bs).toByteArray 0 storedFrameStart := hwhole.left
  have hframe : At (compress bs).toByteArray 4 ([0x00, 0x38] ++ storedBlocks bs) :=
    @At.right _ 0 [0x28, 0xb5, 0x2f, 0xfd] _ hwhole
  have hframes : readFrames (compress bs).toByteArray 0 .empty = .ok bs.toByteArray := by
    rw [readFrames, dif_neg (by omega), readOpening_frame hmagic]
    simp only [readFrame_compress .empty hframe, ByteArray.empty_append]
    rw [dif_neg (by omega), readFrames, dif_pos (by omega)]
  rw [decompress, if_neg (by simp [compress_eq, storedFrameStart]), hframes]
  simp [Except.map]

end PoolKeeper.Zstd
