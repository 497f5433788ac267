/-
Units of ether: wei, gwei, and the fractional gwei amounts of fee settings.
-/
import PoolKeeper.Word

namespace PoolKeeper

/-- Wei in one gwei. -/
def weiPerGwei : Nat := 10 ^ 9

/-- Wei in one ether, which is also the scale of on-chain fractions. -/
def weiPerEther : Nat := 10 ^ 18

/-- The exit epoch of a validator that is not leaving. -/
def farFutureEpoch : UInt64 := 0xffffffffffffffff

def etherToWei (ether : UInt64) : Word := BitVec.ofNat 256 (ether.toNat * weiPerEther)

def gweiToWei (gwei : UInt64) : Word := BitVec.ofNat 256 (gwei.toNat * weiPerGwei)

/-- Whole gwei, rounded down; the largest 64-bit number when there are more. -/
def weiToGwei (wei : Word) : UInt64 := UInt64Sat.clamp (wei.toNat / weiPerGwei)

/-- The bond a minipool must hold for it to be reducible: 16 ether. -/
def reducibleBond : Word := etherToWei 16

/-- A double as an exact number: `mantissa * 2 ^ exponent`, for what is finite
and positive. -/
def positiveParts? (x : Float) : Option (Nat × Int) :=
  let bits := x.toBits.toNat
  let exponent : Nat := bits / 2 ^ 52 % 2 ^ 11
  let fraction : Nat := bits % 2 ^ 52
  if bits / 2 ^ 63 = 1 ∨ exponent = 2047 ∨ (exponent = 0 ∧ fraction = 0) then none
  else if exponent = 0 then some (fraction, -1074)
  else some (2 ^ 52 + fraction, (exponent : Int) - 1075)

/-- `m * 2 ^ e` as a whole number, halves rounded up. -/
def roundScaled (m : Nat) (e : Int) : Nat :=
  match e with
  | .ofNat e => m * 2 ^ e
  | .negSucc e => (m + 2 ^ e) / 2 ^ (e + 1)

/-- Fractional gwei in wei, kept to three decimals; what is not finite or not
positive is zero. At most 2¹²⁸ - 1 thousandths are counted. -/
def fractionalGweiToWei (gwei : Float) : Word :=
  match positiveParts? gwei, positiveParts? (gwei * 1000.0) with
  | some _, some (m, e) =>
    BitVec.ofNat 256 (min (roundScaled m e) (2 ^ 128 - 1) * (weiPerGwei / 1000))
  | some _, none => BitVec.ofNat 256 ((2 ^ 128 - 1) * (weiPerGwei / 1000))
  | none, _ => 0

end PoolKeeper
