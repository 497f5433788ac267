/-
Base 32 in lower-case letters and the digits 2 to 7, without padding. Reading
takes either case, and no other spelling of the same bytes: bits left over in
the last character must be zero.
-/
import PoolKeeper.Bytes

namespace PoolKeeper.Base32

/-- The character of a number below 32. -/
def digitChar (d : Nat) : Char :=
  if d < 26 then Char.ofNat (97 + d) else Char.ofNat (24 + d)

def digitValue? (c : Char) : Option Nat :=
  if 'a' ≤ c ∧ c ≤ 'z' then some (c.toNat - 97)
  else if 'A' ≤ c ∧ c ≤ 'Z' then some (c.toNat - 65)
  else if '2' ≤ c ∧ c ≤ '7' then some (c.toNat - 24)
  else none

/-- Characters for bytes, with `count` bits, of the value `pending`, left over
from the bytes before. -/
def encodeFrom (count pending : Nat) : Bytes → List Char
  | [] => if count = 0 then [] else [digitChar (pending * 2 ^ (5 - count) % 32)]
  | b :: bs =>
    let bits := count + 8
    let all := pending * 256 + b.toNat
    if bits < 10 then
      digitChar (all / 2 ^ (bits - 5) % 32) :: encodeFrom (bits - 5) (all % 2 ^ (bits - 5)) bs
    else
      digitChar (all / 2 ^ (bits - 5) % 32) :: digitChar (all / 2 ^ (bits - 10) % 32) ::
        encodeFrom (bits - 10) (all % 2 ^ (bits - 10)) bs

def encode (bs : Bytes) : List Char := encodeFrom 0 0 bs

/-- Bytes for characters, with `count` bits, of the value `pending`, left over
from the characters before. At the end fewer than five zero bits may be left. -/
def decodeFrom? (count pending : Nat) : List Char → Option Bytes
  | [] => if count < 5 ∧ pending = 0 then some [] else none
  | c :: cs => do
    let d ← digitValue? c
    let bits := count + 5
    let all := pending * 32 + d
    if bits < 8 then decodeFrom? bits all cs
    else
      let rest ← decodeFrom? (bits - 8) (all % 2 ^ (bits - 8)) cs
      return UInt8.ofNat (all / 2 ^ (bits - 8)) :: rest

def decode? (cs : List Char) : Option Bytes := decodeFrom? 0 0 cs

end PoolKeeper.Base32
