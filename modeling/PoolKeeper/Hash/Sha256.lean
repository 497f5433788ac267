/-
SHA-256, the digest that content identifiers are made of.
-/
import PoolKeeper.FixedBytes

namespace PoolKeeper.Sha256

/-- The eight working variables. -/
structure State where
  (a b c d e f g h : UInt32)

def initial : State :=
  ⟨0x6a09e667, 0xbb67ae85, 0x3c6ef372, 0xa54ff53a, 0x510e527f, 0x9b05688c, 0x1f83d9ab, 0x5be0cd19⟩

/-- The constants of the 64 rounds. -/
def roundConstants : List UInt32 :=
  [0x428a2f98, 0x71374491, 0xb5c0fbcf, 0xe9b5dba5, 0x3956c25b, 0x59f111f1, 0x923f82a4, 0xab1c5ed5,
   0xd807aa98, 0x12835b01, 0x243185be, 0x550c7dc3, 0x72be5d74, 0x80deb1fe, 0x9bdc06a7, 0xc19bf174,
   0xe49b69c1, 0xefbe4786, 0x0fc19dc6, 0x240ca1cc, 0x2de92c6f, 0x4a7484aa, 0x5cb0a9dc, 0x76f988da,
   0x983e5152, 0xa831c66d, 0xb00327c8, 0xbf597fc7, 0xc6e00bf3, 0xd5a79147, 0x06ca6351, 0x14292967,
   0x27b70a85, 0x2e1b2138, 0x4d2c6dfc, 0x53380d13, 0x650a7354, 0x766a0abb, 0x81c2c92e, 0x92722c85,
   0xa2bfe8a1, 0xa81a664b, 0xc24b8b70, 0xc76c51a3, 0xd192e819, 0xd6990624, 0xf40e3585, 0x106aa070,
   0x19a4c116, 0x1e376c08, 0x2748774c, 0x34b0bcb5, 0x391c0cb3, 0x4ed8aa4a, 0x5b9cca4f, 0x682e6ff3,
   0x748f82ee, 0x78a5636f, 0x84c87814, 0x8cc70208, 0x90befffa, 0xa4506ceb, 0xbef9a3f7, 0xc67178f2]

def rotate (x : UInt32) (n : UInt32) : UInt32 := (x >>> n) ||| (x <<< (32 - n))

/-- Sixteen consecutive words of the message schedule. -/
structure Schedule where
  (w0 w1 w2 w3 w4 w5 w6 w7 w8 w9 w10 w11 w12 w13 w14 w15 : UInt32)

/-- The schedule moved on by one word. -/
def Schedule.next (w : Schedule) : Schedule :=
  let s0 := rotate w.w1 7 ^^^ rotate w.w1 18 ^^^ (w.w1 >>> 3)
  let s1 := rotate w.w14 17 ^^^ rotate w.w14 19 ^^^ (w.w14 >>> 10)
  ⟨w.w1, w.w2, w.w3, w.w4, w.w5, w.w6, w.w7, w.w8, w.w9, w.w10, w.w11, w.w12, w.w13, w.w14, w.w15,
    w.w0 + s0 + w.w9 + s1⟩

/-- One round with its constant and its word of the schedule. -/
def State.round (s : State) (k w : UInt32) : State :=
  let s1 := rotate s.e 6 ^^^ rotate s.e 11 ^^^ rotate s.e 25
  let choice := (s.e &&& s.f) ^^^ (~~~s.e &&& s.g)
  let t1 := s.h + s1 + choice + k + w
  let s0 := rotate s.a 2 ^^^ rotate s.a 13 ^^^ rotate s.a 22
  let majority := (s.a &&& s.b) ^^^ (s.a &&& s.c) ^^^ (s.b &&& s.c)
  ⟨t1 + (s0 + majority), s.a, s.b, s.c, s.d + t1, s.e, s.f, s.g⟩

def rounds : List UInt32 → Schedule → State → State
  | [], _, s => s
  | k :: ks, w, s => rounds ks w.next (s.round k w.w0)

def State.add (s t : State) : State :=
  ⟨s.a + t.a, s.b + t.b, s.c + t.c, s.d + t.d, s.e + t.e, s.f + t.f, s.g + t.g, s.h + t.h⟩

/-- The schedule of a block, which is the sixteen words at the front of `bs`
with missing bytes read as zero, and what follows the block. -/
def word : Bytes → UInt32 × Bytes
  | a :: b :: c :: d :: bs =>
    ((a.toUInt32 <<< 24) ||| (b.toUInt32 <<< 16) ||| (c.toUInt32 <<< 8) ||| d.toUInt32, bs)
  | bs => (0, bs)

def Schedule.take (bs : Bytes) : Schedule × Bytes :=
  let (w0, bs) := word bs
  let (w1, bs) := word bs
  let (w2, bs) := word bs
  let (w3, bs) := word bs
  let (w4, bs) := word bs
  let (w5, bs) := word bs
  let (w6, bs) := word bs
  let (w7, bs) := word bs
  let (w8, bs) := word bs
  let (w9, bs) := word bs
  let (w10, bs) := word bs
  let (w11, bs) := word bs
  let (w12, bs) := word bs
  let (w13, bs) := word bs
  let (w14, bs) := word bs
  let (w15, bs) := word bs
  (⟨w0, w1, w2, w3, w4, w5, w6, w7, w8, w9, w10, w11, w12, w13, w14, w15⟩, bs)

/-- Takes `n` blocks of 64 bytes in, one after the other. -/
def compress : (n : Nat) → State → Bytes → State
  | 0, s, _ => s
  | n + 1, s, bs =>
    let (w, bs) := Schedule.take bs
    compress n (s.add (rounds roundConstants w s)) bs

/-- The message followed by a one bit, zeros up to a whole block, and its length in bits. -/
def pad (message : Bytes) : Bytes :=
  let zeros := (119 - message.length % 64) % 64
  message ++ 0x80 :: (List.replicate zeros 0 ++ Bytes.bigEndian 8 (8 * message.length))

end Sha256

/-- The SHA-256 digest of a byte string. -/
def sha256 (message : Bytes) : Hash :=
  let padded := Sha256.pad message
  let s := Sha256.compress (padded.length / 64) Sha256.initial padded
  .ofNat ([s.b, s.c, s.d, s.e, s.f, s.g, s.h].foldl (fun v x => v * 2 ^ 32 + x.toNat) s.a.toNat)

end PoolKeeper
