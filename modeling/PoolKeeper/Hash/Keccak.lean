/-
Keccak-256, the chain's hash: the sponge over Keccak-f[1600] with a rate of
136 bytes and the padding that starts with the bit 1 alone.

The state is five planes of five 64-bit lanes. Every loop runs over a list, so
a digest can be computed inside a proof too.
-/
import PoolKeeper.FixedBytes

namespace PoolKeeper.Keccak

/-- Five lanes, one for each value of x. -/
structure Plane where
  (a b c d e : UInt64)

/-- Five planes, one for each value of y. -/
structure State where
  (a b c d e : Plane)

def rotate (x : UInt64) (n : UInt64) : UInt64 := (x <<< n) ||| (x >>> (64 - n))

namespace Plane

def zero : Plane := ⟨0, 0, 0, 0, 0⟩

def xor (p q : Plane) : Plane :=
  ⟨p.a ^^^ q.a, p.b ^^^ q.b, p.c ^^^ q.c, p.d ^^^ q.d, p.e ^^^ q.e⟩

/-- What θ adds to every plane, from the parities of the columns. -/
def spread (p : Plane) : Plane :=
  ⟨p.e ^^^ rotate p.b 1, p.a ^^^ rotate p.c 1, p.b ^^^ rotate p.d 1, p.c ^^^ rotate p.e 1,
    p.d ^^^ rotate p.a 1⟩

/-- The step χ on one row. -/
def mix (p : Plane) : Plane :=
  ⟨p.a ^^^ (~~~p.b &&& p.c), p.b ^^^ (~~~p.c &&& p.d), p.c ^^^ (~~~p.d &&& p.e),
    p.d ^^^ (~~~p.e &&& p.a), p.e ^^^ (~~~p.a &&& p.b)⟩

end Plane

namespace State

def zero : State := ⟨.zero, .zero, .zero, .zero, .zero⟩

/-- The step θ. -/
def parity (s : State) : State :=
  let t := (s.a.xor (s.b.xor (s.c.xor (s.d.xor s.e)))).spread
  ⟨s.a.xor t, s.b.xor t, s.c.xor t, s.d.xor t, s.e.xor t⟩

/-- The steps ρ and π: every lane is rotated and moved. -/
def move (s : State) : State :=
  ⟨⟨s.a.a, rotate s.b.b 44, rotate s.c.c 43, rotate s.d.d 21, rotate s.e.e 14⟩,
   ⟨rotate s.a.d 28, rotate s.b.e 20, rotate s.c.a 3, rotate s.d.b 45, rotate s.e.c 61⟩,
   ⟨rotate s.a.b 1, rotate s.b.c 6, rotate s.c.d 25, rotate s.d.e 8, rotate s.e.a 18⟩,
   ⟨rotate s.a.e 27, rotate s.b.a 36, rotate s.c.b 10, rotate s.d.c 15, rotate s.e.d 56⟩,
   ⟨rotate s.a.c 62, rotate s.b.d 55, rotate s.c.e 39, rotate s.d.a 41, rotate s.e.b 2⟩⟩

/-- One round: θ, ρ, π, χ, and the round constant on the first lane. -/
def round (s : State) (constant : UInt64) : State :=
  let s := s.parity.move
  let p := s.a.mix
  ⟨{ p with a := p.a ^^^ constant }, s.b.mix, s.c.mix, s.d.mix, s.e.mix⟩

end State

/-- The constants of the 24 rounds. -/
def roundConstants : List UInt64 :=
  [0x0000000000000001, 0x0000000000008082, 0x800000000000808A, 0x8000000080008000,
   0x000000000000808B, 0x0000000080000001, 0x8000000080008081, 0x8000000000008009,
   0x000000000000008A, 0x0000000000000088, 0x0000000080008009, 0x000000008000000A,
   0x000000008000808B, 0x800000000000008B, 0x8000000000008089, 0x8000000000008003,
   0x8000000000008002, 0x8000000000000080, 0x000000000000800A, 0x800000008000000A,
   0x8000000080008081, 0x8000000000008080, 0x0000000080000001, 0x8000000080008008]

def permute (s : State) : State := roundConstants.foldl State.round s

/-- Bytes that one application of the permutation takes in. -/
def rate : Nat := 136

/-- A little-endian lane from the front of a byte string. -/
def lane (bs : Bytes) : UInt64 :=
  (bs.take 8).foldr (fun b v => (v <<< 8) ||| b.toUInt64) 0

/-- Adds a block of `rate` bytes to the state and permutes it. -/
def absorb (s : State) (block : Bytes) : State :=
  let l (i : Nat) := lane (block.drop (8 * i))
  permute
    { s with
      a := s.a.xor ⟨l 0, l 1, l 2, l 3, l 4⟩
      b := s.b.xor ⟨l 5, l 6, l 7, l 8, l 9⟩
      c := s.c.xor ⟨l 10, l 11, l 12, l 13, l 14⟩
      d := s.d.xor ⟨l 15, l 16, 0, 0, 0⟩ }

/-- The last, incomplete block filled up to the rate. -/
def pad (rest : Bytes) : Bytes :=
  let gap := rate - rest.length
  if gap = 1 then rest ++ [0x81]
  else rest ++ 0x01 :: (List.replicate (gap - 2) 0 ++ [0x80])

/-- Absorbs a message: `n` whole blocks and then the padded rest. -/
def absorbAll : (n : Nat) → State → Bytes → State
  | 0, s, bs => absorb s (pad bs)
  | n + 1, s, bs => absorbAll n (absorb s (bs.take rate)) (bs.drop rate)

/-- The bytes of a lane as they leave the sponge, as part of a big-endian number. -/
def reversed (x : UInt64) : Nat :=
  (List.range 8).foldl (fun v i => v * 256 + ((x >>> UInt64.ofNat (8 * i)) &&& 0xff).toNat) 0

end Keccak

/-- The Keccak-256 digest of a byte string. -/
def keccak256 (message : Bytes) : Hash :=
  let s := Keccak.absorbAll (message.length / Keccak.rate) .zero message
  let r := Keccak.reversed
  .ofNat (((r s.a.a * 2 ^ 64 + r s.a.b) * 2 ^ 64 + r s.a.c) * 2 ^ 64 + r s.a.d)

end PoolKeeper
