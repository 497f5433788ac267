/-
Frames: what compressed data consists of. `decompress` takes any number of
frames, compressed or to be skipped, and `compress` writes one frame of stored
blocks.
-/
import PoolKeeper.Hash.XxHash
import PoolKeeper.Zstd.Block

namespace PoolKeeper.Zstd

/-- The numbers that frames start with. -/
def frameMagic : Nat := 0xfd2fb528
def skippableMagic : Nat := 0x184d2a5

/-- What the header of a frame says. -/
structure Header where
  contentSize : Option Nat
  blockLimit : Nat
  hasChecksum : Bool
  next : Nat

/-- The header behind the magic number. -/
def readHeader (data : ByteArray) (i : Nat) : Except Fault Header := do
  if data.size ≤ i then throw .incomplete
  let b := (byteAt data i).toNat
  let single := b / 32 % 2 = 1
  let windowBytes := if single then 0 else 1
  let dictionaryBytes := [0, 1, 2, 4].getD (b % 4) 0
  let sizeBytes := [if single then 1 else 0, 2, 4, 8].getD (b / 64) 0
  let dictionaryAt := i + 1 + windowBytes
  let sizeAt := dictionaryAt + dictionaryBytes
  let next := sizeAt + sizeBytes
  if data.size < next then throw .incomplete
  if b / 8 % 2 = 1 then throw .unsupportedParameter
  let size := littleEndian data sizeAt sizeBytes + (if sizeBytes = 2 then 256 else 0)
  let w := (byteAt data (i + 1)).toNat
  let window := if single then size else 2 ^ (10 + w / 8) * (8 + w % 8) / 8
  if !single ∧ 27 < 10 + w / 8 then throw .windowTooLarge
  if single ∧ 2 ^ 27 + 1 < size then throw .windowTooLarge
  if littleEndian data dictionaryAt dictionaryBytes ≠ 0 then throw .dictionaryWanted
  return ⟨if sizeBytes = 0 then none else some size, min window maxBlockSize, b / 4 % 2 = 1, next⟩

/-- The blocks of a frame from `i` on, until the last, and the position behind it. -/
def readBlocks (limit start : Nat) (h : History) (data : ByteArray) (i : Nat) (out : ByteArray) :
    Except Fault (ByteArray × Nat) :=
  if _h : data.size < i + 3 then .error .incomplete
  else
    let header := littleEndian data i 3
    let size := header / 8
    let stored := if header / 2 % 4 = 1 then 1 else size
    if header / 2 % 4 = 3 ∨ limit < size then .error .corrupted
    else if data.size < i + 3 + stored then .error .incomplete
    else
      let block : Except Fault (History × ByteArray) :=
        match header / 2 % 4 with
        | 0 => .ok (h, pushRange out data (i + 3) size)
        | 1 => .ok (h, pushCopies out (byteAt data (i + 3)) size)
        | _ => readBlock h data (i + 3) (i + 3 + size) start out
      match block with
      | .error e => .error e
      | .ok (h, out) =>
        if header % 2 = 1 then .ok (out, i + 3 + stored)
        else readBlocks limit start h data (i + 3 + stored) out
termination_by data.size - i
decreasing_by omega

/-- The frame whose header starts at `i`, after the output so far. -/
def readFrame (data : ByteArray) (i : Nat) (out : ByteArray) : Except Fault (ByteArray × Nat) := do
  let header ← readHeader data i
  let start := out.size
  let (out, i) ← readBlocks header.blockLimit start .start data header.next out
  if header.contentSize.any (· ≠ out.size - start) then throw .corrupted
  if !header.hasChecksum then return (out, i)
  if data.size < i + 4 then throw .incomplete
  if littleEndian data i 4 ≠ (xxh64 (out.extract start out.size)).toNat % 2 ^ 32 then
    throw .wrongChecksum
  return (out, i + 4)

/-- What stands at the start of a frame. -/
inductive Opening where
  | frame
  | skippable (size : Nat)
  | fault (f : Fault)

/-- The bytes at `i` could be the start of a magic number of which some bytes
may be missing; `least` is how many low bits of it do not matter. -/
def couldStart (data : ByteArray) (i magic least : Nat) : Bool :=
  (List.range (min 4 (data.size - i))).all fun k =>
    let shift := if k = 0 then least else 0
    (byteAt data (i + k)).toNat / 2 ^ shift = magic / 2 ^ (8 * k) % 256 / 2 ^ shift

def readOpening (data : ByteArray) (i : Nat) : Opening :=
  if couldStart data i frameMagic 0 then
    if data.size < i + 4 then .fault .incomplete else .frame
  else if couldStart data i (skippableMagic * 16) 4 then
    if data.size < i + 8 then .fault .incomplete else .skippable (littleEndian data (i + 4) 4)
  else .fault .unknownFrame

/-- All frames from `i` on. -/
def readFrames (data : ByteArray) (i : Nat) (out : ByteArray) : Except Fault ByteArray :=
  if _h : data.size ≤ i then .ok out
  else match readOpening data i with
    | .fault f => .error f
    | .skippable size =>
      if data.size < i + 8 + size then .error .incomplete
      else readFrames data (i + 8 + size) out
    | .frame =>
      match readFrame data (i + 4) out with
      | .error f => .error f
      | .ok (out, next) =>
        if _h : next ≤ i then .error .corrupted else readFrames data next out
termination_by data.size - i
decreasing_by all_goals omega

/-- The bytes that compressed data stands for. At least one frame is wanted. -/
def decompress (bytes : Bytes) : Except Fault Bytes :=
  if bytes.isEmpty then .error .incomplete
  else (readFrames bytes.toByteArray 0 .empty).map fun out => out.data.toList

/-- Stored blocks of a frame, the last one marked. -/
def storedBlocks (bytes : Bytes) : Bytes :=
  let size := min bytes.length maxBlockSize
  let header (last : Nat) := (Bytes.bigEndian 3 (size * 8 + last)).reverse
  if _h : maxBlockSize < bytes.length then
    header 0 ++ bytes.take maxBlockSize ++ storedBlocks (bytes.drop maxBlockSize)
  else header 1 ++ bytes
termination_by bytes.length
decreasing_by
  simp only [List.length_drop, maxBlockSize] at *
  omega

/-- One frame that stores the bytes as they are, with a window of one block. -/
def compress (bytes : Bytes) : Bytes :=
  [0x28, 0xb5, 0x2f, 0xfd, 0x00, 0x38] ++ storedBlocks bytes

end PoolKeeper.Zstd
