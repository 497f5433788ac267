/-
Numbers as the chain holds them: 256-bit words, whose sums and products wrap,
and the saturating operations that amounts are computed with.
-/
import PoolKeeper.Numeral

namespace PoolKeeper

/-- A 256-bit word. Its own `+` and `*` wrap. -/
abbrev Word := BitVec 256

namespace Word

/-- The largest word. -/
def max : Word := BitVec.allOnes 256

/-- The number `n`, or the largest word when `n` does not fit. -/
def clamp (n : Nat) : Word := if n < 2 ^ 256 then BitVec.ofNat 256 n else max

theorem toNat_clamp (n : Nat) : (clamp n).toNat = min n (2 ^ 256 - 1) := by
  unfold clamp
  split
  · rename_i h
    rw [BitVec.toNat_ofNat, Nat.mod_eq_of_lt h]
    omega
  · rw [max, BitVec.toNat_allOnes]
    omega

/-- The sum, or the largest word on overflow. -/
def saturatingAdd (a b : Word) : Word := clamp (a.toNat + b.toNat)

/-- The product, or the largest word on overflow. -/
def saturatingMul (a b : Word) : Word := clamp (a.toNat * b.toNat)

theorem toNat_saturatingAdd (a b : Word) :
    (saturatingAdd a b).toNat = min (a.toNat + b.toNat) (2 ^ 256 - 1) := toNat_clamp _

theorem toNat_saturatingMul (a b : Word) :
    (saturatingMul a b).toNat = min (a.toNat * b.toNat) (2 ^ 256 - 1) := toNat_clamp _

/-- The number as a word, if it fits. -/
def ofNat? (n : Nat) : Option Word := if n < 2 ^ 256 then some (BitVec.ofNat 256 n) else none

def ofUInt64 (n : UInt64) : Word := BitVec.ofNat 256 n.toNat

/-- The word as a 64-bit number, if it fits. -/
def toUInt64? (w : Word) : Option UInt64 :=
  if w.toNat < 2 ^ 64 then some (UInt64.ofNat w.toNat) else none

def decimal (w : Word) : String := Numeral.decimal w.toNat

/-- Hexadecimal text with as few digits as the word needs. -/
def hexText (w : Word) : String := "0x" ++ Numeral.text 16 w.toNat

/-- The digits of base `b` as a word, underscores skipped. -/
def ofDigits? (b : Nat) (cs : List Char) : Option Word :=
  (Numeral.readSpaced b cs).bind ofNat?

theorem toNat_ofUInt64 (n : UInt64) : (ofUInt64 n).toNat = n.toNat := by
  rw [ofUInt64, BitVec.toNat_ofNat]
  exact Nat.mod_eq_of_lt (Nat.lt_trans n.toNat_lt (by decide))

theorem ofUInt64_inj {n m : UInt64} (h : ofUInt64 n = ofUInt64 m) : n = m := by
  have hnat := congrArg BitVec.toNat h
  rw [toNat_ofUInt64, toNat_ofUInt64] at hnat
  exact UInt64.toNat_inj.1 hnat

theorem toUInt64?_eq_some_iff {w : Word} {n : UInt64} :
    w.toUInt64? = some n ↔ w = ofUInt64 n := by
  rw [toUInt64?]
  constructor
  · intro h
    split at h
    · rename_i hw
      cases h
      apply BitVec.eq_of_toNat_eq
      rw [toNat_ofUInt64, UInt64.toNat_ofNat', Nat.mod_eq_of_lt hw]
    · cases h
  · rintro rfl
    rw [toNat_ofUInt64, if_pos n.toNat_lt, UInt64.ofNat_toNat]

theorem ofNat?_toNat (w : Word) : ofNat? w.toNat = some w := by
  simp [ofNat?, w.isLt]

end Word

/-! ## Saturating arithmetic on 64-bit numbers -/

namespace UInt64Sat

/-- The number `n`, or the largest 64-bit number when `n` does not fit. -/
def clamp (n : Nat) : UInt64 := UInt64.ofNat (min n (2 ^ 64 - 1))

theorem toNat_clamp (n : Nat) : (clamp n).toNat = min n (2 ^ 64 - 1) := by
  rw [clamp, UInt64.toNat_ofNat']
  exact Nat.mod_eq_of_lt (by omega)

def add (a b : UInt64) : UInt64 := clamp (a.toNat + b.toNat)

def mul (a b : UInt64) : UInt64 := clamp (a.toNat * b.toNat)

/-- The difference, or zero when `b` is the larger. -/
def sub (a b : UInt64) : UInt64 := UInt64.ofNat (a.toNat - b.toNat)

theorem toNat_add (a b : UInt64) : (add a b).toNat = min (a.toNat + b.toNat) (2 ^ 64 - 1) :=
  toNat_clamp _

theorem toNat_mul (a b : UInt64) : (mul a b).toNat = min (a.toNat * b.toNat) (2 ^ 64 - 1) :=
  toNat_clamp _

theorem toNat_sub (a b : UInt64) : (sub a b).toNat = a.toNat - b.toNat := by
  rw [sub, UInt64.toNat_ofNat']
  exact Nat.mod_eq_of_lt (Nat.lt_of_le_of_lt (Nat.sub_le _ _) a.toNat_lt)

end UInt64Sat
end PoolKeeper
