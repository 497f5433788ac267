/-
Byte strings: big-endian numbers, hexadecimal text, UTF-8.
-/
import PoolKeeper.Numeral

namespace PoolKeeper

/-- A string of bytes. -/
abbrev Bytes := List UInt8

namespace Bytes

/-- The `n` low bytes of `x`, most significant first. -/
def bigEndian : (n : Nat) → (x : Nat) → Bytes
  | 0, _ => []
  | n + 1, x => UInt8.ofNat (x >>> (8 * n)) :: bigEndian n x

@[simp] theorem length_bigEndian (n x : Nat) : (bigEndian n x).length = n := by
  induction n with
  | zero => rfl
  | succ n ih => simp [bigEndian, ih]

/-- The number whose big-endian bytes are given. -/
def toNat (bs : Bytes) : Nat := bs.foldl (fun v b => v * 256 + b.toNat) 0

theorem foldl_bigEndian (n x v : Nat) :
    (bigEndian n x).foldl (fun v b => v * 256 + b.toNat) v = v * 256 ^ n + x % 256 ^ n := by
  induction n generalizing v with
  | zero => simp [bigEndian, Nat.mod_one]
  | succ n ih =>
    have h256 : (2 : Nat) ^ (8 * n) = 256 ^ n := by rw [Nat.pow_mul]
    rw [bigEndian, List.foldl_cons, ih, UInt8.toNat_ofNat', Nat.shiftRight_eq_div_pow, h256,
      show (2 : Nat) ^ 8 = 256 from rfl, Nat.pow_succ 256, Nat.mod_mul, Nat.add_mul,
      Nat.mul_comm (x / 256 ^ n % 256), Nat.mul_assoc, Nat.mul_comm 256]
    omega

/-- The `n` low bytes of a number determine it up to a multiple of `256 ^ n`. -/
theorem toNat_bigEndian (n x : Nat) : toNat (bigEndian n x) = x % 256 ^ n := by
  simp [toNat, foldl_bigEndian]

theorem foldl_toNat (bs : Bytes) (v : Nat) :
    bs.foldl (fun v b => v * 256 + b.toNat) v = v * 256 ^ bs.length + toNat bs := by
  induction bs generalizing v with
  | nil => simp [toNat]
  | cons b bs ih =>
    have hb := ih b.toNat
    rw [toNat, List.foldl_cons, List.foldl_cons, ih, Nat.zero_mul, Nat.zero_add, hb,
      List.length_cons, Nat.pow_succ, Nat.add_mul, Nat.mul_assoc, Nat.mul_comm 256, Nat.add_assoc]

theorem toNat_cons (b : UInt8) (bs : Bytes) :
    toNat (b :: bs) = b.toNat * 256 ^ bs.length + toNat bs := by
  rw [toNat, List.foldl_cons, foldl_toNat, Nat.zero_mul, Nat.zero_add]

theorem toNat_lt (bs : Bytes) : toNat bs < 256 ^ bs.length := by
  induction bs with
  | nil => exact Nat.one_pos
  | cons b bs ih =>
    have hb : b.toNat + 1 ≤ 256 := b.toNat_lt
    have hmul := Nat.mul_le_mul_right (256 ^ bs.length) hb
    rw [toNat_cons, List.length_cons, Nat.pow_succ, Nat.mul_comm _ 256]
    rw [Nat.add_mul] at hmul
    omega

/-- Byte strings of one length are told apart by their numbers. -/
theorem toNat_inj {bs cs : Bytes} (hlength : bs.length = cs.length) (h : toNat bs = toNat cs) :
    bs = cs := by
  induction bs generalizing cs with
  | nil => exact (List.eq_nil_of_length_eq_zero hlength.symm).symm
  | cons b bs ih =>
    cases cs with
    | nil => cases hlength
    | cons c cs =>
      have hlength : bs.length = cs.length := Nat.succ.inj hlength
      have hb := toNat_lt bs
      have hc := toNat_lt cs
      rw [toNat_cons, toNat_cons, hlength] at h
      rw [hlength] at hb
      have quotient : ∀ x r, r < 256 ^ cs.length →
          (x * 256 ^ cs.length + r) / 256 ^ cs.length = x := by
        intro x r hr
        rw [Nat.mul_comm, Nat.mul_add_div (by omega), Nat.div_eq_of_lt hr, Nat.add_zero]
      have hfirst : b.toNat = c.toNat := by rw [← quotient b.toNat _ hb, h, quotient _ _ hc]
      rw [UInt8.toNat_inj.1 hfirst, ih hlength (by rw [hfirst] at h; omega)]

/-- Lower-case hexadecimal digits, two for each byte. -/
def toHexChars (bs : Bytes) : List Char :=
  bs.flatMap fun b => [Numeral.digitChar (b.toNat / 16), Numeral.digitChar (b.toNat % 16)]

def toHex (bs : Bytes) : String := String.ofList (toHexChars bs)

/-- One hexadecimal digit of either case. -/
def hexValue? (c : Char) : Option Nat :=
  (Numeral.digitValue? c).filter (· < 16)

/-- The bytes that pairs of hexadecimal digits stand for. -/
def ofHexChars? : List Char → Option Bytes
  | [] => some []
  | [_] => none
  | a :: b :: cs => do
    let hi ← hexValue? a
    let lo ← hexValue? b
    return UInt8.ofNat (hi * 16 + lo) :: (← ofHexChars? cs)

theorem hexValue?_digitChar {d : Nat} (h : d < 16) : hexValue? (Numeral.digitChar d) = some d := by
  simp [hexValue?, Numeral.digitValue?_digitChar (Nat.lt_trans h (by decide : 16 < 36)),
    Option.filter, h]

theorem ofHexChars?_toHexChars (bs : Bytes) : ofHexChars? (toHexChars bs) = some bs := by
  induction bs with
  | nil => rfl
  | cons b bs ih =>
    have hb : b.toNat < 256 := b.toNat_lt
    have ih' : ofHexChars? (List.flatMap (fun b : UInt8 =>
        [Numeral.digitChar (b.toNat / 16), Numeral.digitChar (b.toNat % 16)]) bs) = some bs := ih
    simp only [toHexChars, List.flatMap_cons, List.cons_append, List.nil_append, ofHexChars?,
      hexValue?_digitChar (d := b.toNat / 16) (by omega),
      hexValue?_digitChar (d := b.toNat % 16) (by omega), Option.bind_eq_bind,
      Option.bind_some, ih', Nat.div_add_mod', UInt8.ofNat_toNat]
    rfl

/-- The UTF-8 bytes of a text. -/
def ofText (s : String) : Bytes := s.toByteArray.data.toList

/-- The text whose UTF-8 bytes are given, if they are well formed. -/
def text? (bs : Bytes) : Option String := String.fromUTF8? ⟨bs.toArray⟩

theorem text?_ofText (s : String) : text? (ofText s) = some s := by
  have h : (⟨(ofText s).toArray⟩ : ByteArray) = s.toByteArray := by simp [ofText]
  simp [text?, h, String.fromUTF8?, s.isValidUTF8, String.fromUTF8]

end Bytes

/-- The byte at a position, zero past the end. -/
def byteAt (data : ByteArray) (i : Nat) : UInt8 := if h : i < data.size then data[i] else 0

end PoolKeeper
