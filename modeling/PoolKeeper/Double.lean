/-
The double nearest to a fraction.
-/
import PoolKeeper.Numeral

namespace PoolKeeper.Double

/-- `num / den` rounded to a whole number, a tie to the even one. -/
def roundDiv (num den : Nat) : Nat :=
  let q := num / den
  let r := num % den
  if den < 2 * r ∨ (2 * r = den ∧ q % 2 = 1) then q + 1 else q

/-- `num / den` in units of two to the `k`th. -/
def scaled (num den : Nat) : Int → Nat × Nat
  | .ofNat k => (num, den * 2 ^ k)
  | .negSucc k => (num * 2 ^ (k + 1), den)

/-- The exponent of the last place of the double nearest to `num / den`: 53
bits are kept, unless the number is too small. -/
def lastPlace (num den : Nat) : Int :=
  let guess : Int := (num.log2 : Int) - den.log2 - 52
  let (n, d) := scaled num den guess
  max (if n / d < 2 ^ 52 then guess - 1 else guess) (-1074)

/-- The bits of the double nearest to `num / den`, infinity if there is none. -/
def bits (num den : Nat) : UInt64 :=
  if num = 0 ∨ den = 0 then 0
  else
    let k := lastPlace num den
    let (n, d) := scaled num den k
    let q := roundDiv n d
    let (q, k) := if q = 2 ^ 53 then (2 ^ 52, k + 1) else (q, k)
    if 971 < k then 0x7ff0000000000000
    else if q < 2 ^ 52 then UInt64.ofNat q
    else UInt64.ofNat ((k + 1075).toNat * 2 ^ 52 + (q - 2 ^ 52))

/-- The double nearest to `m * 10 ^ e`. Exponents beyond all doubles are cut. -/
def ofDecimal (m : Nat) (e : Int) : Float :=
  let size : Int := m.log2 / 3 + 1
  if m = 0 ∨ e + size < -400 then 0.0
  else
    let e := min e 400
    Float.ofBits (bits (m * 10 ^ e.toNat) (10 ^ (-e).toNat))

end PoolKeeper.Double
