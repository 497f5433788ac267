/-
What can be wrong with compressed data, and reading bits from it.

Bit streams are read backwards: from the highest set bit of the last byte,
which only marks the end, down to the first bit of the first byte.
-/
import PoolKeeper.Bytes

namespace PoolKeeper.Zstd

/-- Why data cannot be decompressed. -/
inductive Fault where
  | unknownFrame
  | incomplete
  | corrupted
  | wrongChecksum
  | unsupportedParameter
  | windowTooLarge
  | dictionaryWanted
  deriving DecidableEq

def Fault.message : Fault → String
  | .unknownFrame => "Unknown frame descriptor"
  | .incomplete => "incomplete frame"
  | .corrupted => "Data corruption detected"
  | .wrongChecksum => "Restored data doesn't match checksum"
  | .unsupportedParameter => "Unsupported frame parameter"
  | .windowTooLarge => "Frame requires too much memory for decoding"
  | .dictionaryWanted => "Dictionary mismatch"

/-- The little-endian number in the `n` bytes at a position. -/
def littleEndian (data : ByteArray) (i n : Nat) : Nat :=
  (List.range n).foldr (fun k v => v * 256 + (byteAt data (i + k)).toNat) 0

/-- At most 56 bits from a bit position on, the first bit lowest. -/
def bitsAt (data : ByteArray) (bit n : Nat) : Nat :=
  let i := bit / 8
  let byte (k : Nat) : UInt64 := (byteAt data (i + k)).toUInt64 <<< UInt64.ofNat (8 * k)
  let all := byte 0 ||| byte 1 ||| byte 2 ||| byte 3 ||| byte 4 ||| byte 5 ||| byte 6 ||| byte 7
  ((all >>> UInt64.ofNat (bit % 8)) &&& ((1 <<< UInt64.ofNat n) - 1)).toNat

/-- A stream that is read backwards: the bits from `first` up to `first + left`
are still to be read. -/
structure BitStream where
  data : ByteArray
  first : Nat
  left : Nat

namespace BitStream

/-- The stream in the bytes from `lo` up to `hi`. -/
def ofRange (data : ByteArray) (lo hi : Nat) : Except Fault BitStream :=
  if hi ≤ lo then .error .corrupted
  else
    let last := (byteAt data (hi - 1)).toNat
    if last = 0 then .error .corrupted
    else .ok ⟨data, 8 * lo, 8 * (hi - 1 - lo) + last.log2⟩

/-- The next `n` bits, zeros standing for those that are not there. -/
def peek (s : BitStream) (n : Nat) : Nat :=
  if n ≤ s.left then bitsAt s.data (s.first + s.left - n) n
  else bitsAt s.data s.first s.left * 2 ^ (n - s.left)

/-- The next `n` bits and the stream behind them. -/
def take (s : BitStream) (n : Nat) : Except Fault (Nat × BitStream) :=
  if n ≤ s.left then .ok (s.peek n, { s with left := s.left - n }) else .error .corrupted

end BitStream
end PoolKeeper.Zstd
