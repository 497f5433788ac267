/-
Variable-length numbers: seven bits to a byte, the low ones first, and the
high bit of every byte but the last set.
-/
import PoolKeeper.Bytes

namespace PoolKeeper.Varint

/-- The bytes of a number. -/
def encode (n : Nat) : Bytes :=
  if _h : 0x80 ≤ n then UInt8.ofNat (n % 0x80 + 0x80) :: encode (n / 0x80) else [UInt8.ofNat n]
termination_by n
decreasing_by omega

/-- Reads at most `left` bytes of a number of which `place` is the weight of
the next byte. Bits beyond the 64th are dropped. -/
def decodeFrom : (left : Nat) → (place value : Nat) → Bytes → Option (Nat × Bytes)
  | 0, _, _, _ => none
  | _ + 1, _, _, [] => none
  | left + 1, place, value, b :: bs =>
    let value := value + b.toNat % 0x80 * place % 2 ^ 64
    if b < 0x80 then some (value, bs) else decodeFrom left (place * 0x80) value bs

/-- A number from the front of a byte string, in at most ten bytes, and what
follows it. -/
def decode? (bs : Bytes) : Option (Nat × Bytes) := decodeFrom 10 1 0 bs

end PoolKeeper.Varint
