/-
XXH64 with seed zero, whose low half is the checksum of a zstd frame.
-/
import PoolKeeper.Bytes

namespace PoolKeeper.XxHash

def prime1 : UInt64 := 0x9E3779B185EBCA87
def prime2 : UInt64 := 0xC2B2AE3D27D4EB4F
def prime3 : UInt64 := 0x165667B19E3779F9
def prime4 : UInt64 := 0x85EBCA77C2B2AE63
def prime5 : UInt64 := 0x27D4EB2F165667C5

def rotate (x : UInt64) (n : UInt64) : UInt64 := (x <<< n) ||| (x >>> (64 - n))

/-- Takes one lane into an accumulator. -/
def round (acc lane : UInt64) : UInt64 := rotate (acc + lane * prime2) 31 * prime1

/-- The `n` bytes at `i` as a little-endian number. -/
def lane (data : ByteArray) (i n : Nat) : UInt64 :=
  (List.range n).foldr (fun k v => (v <<< 8) ||| (byteAt data (i + k)).toUInt64) 0

/-- Joins an accumulator into the digest. -/
def merge (h acc : UInt64) : UInt64 := (h ^^^ round 0 acc) * prime1 + prime4

/-- The digest of `n` stripes of 32 bytes from `i` on. -/
def stripes (data : ByteArray) : (n i : Nat) → (a b c d : UInt64) → UInt64
  | 0, _, a, b, c, d =>
    let h := rotate a 1 + rotate b 7 + rotate c 12 + rotate d 18
    merge (merge (merge (merge h a) b) c) d
  | n + 1, i, a, b, c, d =>
    stripes data n (i + 32) (round a (lane data i 8)) (round b (lane data (i + 8) 8))
      (round c (lane data (i + 16) 8)) (round d (lane data (i + 24) 8))

/-- The last bytes: eights, then at most one four, then single bytes. -/
def tail (data : ByteArray) (h : UInt64) (i : Nat) : UInt64 :=
  if i + 8 ≤ data.size then
    tail data (rotate (h ^^^ round 0 (lane data i 8)) 27 * prime1 + prime4) (i + 8)
  else if i + 4 ≤ data.size then
    tail data (rotate (h ^^^ (lane data i 4 * prime1)) 23 * prime2 + prime3) (i + 4)
  else if i < data.size then
    tail data (rotate (h ^^^ (lane data i 1 * prime5)) 11 * prime1) (i + 1)
  else h
termination_by data.size - i

/-- The final mixing. -/
def avalanche (h : UInt64) : UInt64 :=
  let h := (h ^^^ (h >>> 33)) * prime2
  let h := (h ^^^ (h >>> 29)) * prime3
  h ^^^ (h >>> 32)

end XxHash

/-- The XXH64 digest of the data with seed zero. -/
def xxh64 (data : ByteArray) : UInt64 :=
  let n := data.size / 32
  let h := if n = 0 then XxHash.prime5
    else XxHash.stripes data n 0 (XxHash.prime1 + XxHash.prime2) XxHash.prime2 0 (0 - XxHash.prime1)
  XxHash.avalanche (XxHash.tail data (h + UInt64.ofNat data.size) (32 * n))

end PoolKeeper
