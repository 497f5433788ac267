/-
Number literals, one character at a time, and whether a double can hold them.
-/
import PoolKeeper.Json.Tree

namespace PoolKeeper.Json

/-- `n` rounded to 53 significant bits, ties to even: the double nearest to it. -/
def roundDouble (n : Nat) : Nat :=
  if n < 2 ^ 53 then n
  else
    let s := n.log2 - 52
    let q := n / 2 ^ s
    let r := n % 2 ^ s
    let half := 2 ^ (s - 1)
    (if half < r ∨ (r = half ∧ q % 2 = 1) then q + 1 else q) * 2 ^ s

/-- A double can hold `significand * 10 ^ exponent`, computed as the product of
the doubles nearest to both factors. -/
def inRange (significand : Nat) (exponent : Int) : Bool :=
  match exponent with
  | .negSucc _ => true
  | .ofNat e =>
    significand = 0 ∨
      (e ≤ 308 ∧ roundDouble significand * roundDouble (10 ^ e) < 2 ^ 1024 - 2 ^ 970)

/-- How far a literal has been read. -/
inductive Literal.Phase where
  | minus
  | zero
  | whole
  | point
  | fraction
  | mark
  | sign
  | exponent
  deriving DecidableEq

/-- A literal that is being read. Digits beyond the first that do not fit into
64 bits only count in the exponent (`long`). -/
structure Literal where
  phase : Literal.Phase
  negative : Bool
  significand : Nat
  long : Bool
  scale : Int
  shrinking : Bool
  exponent : Nat

namespace Literal

/-- The literal that starts with a character. -/
def start? (c : UInt8) : Option Literal :=
  if c = 0x2d then some ⟨.minus, true, 0, false, 0, false, 0⟩
  else if c = 0x30 then some ⟨.zero, false, 0, false, 0, false, 0⟩
  else if 0x31 ≤ c ∧ c ≤ 0x39 then some ⟨.whole, false, c.toNat - 48, false, 0, false, 0⟩
  else none

/-- A further digit before the point. -/
def wholeDigit (l : Literal) (d : Nat) : Literal :=
  if l.long ∨ 2 ^ 64 ≤ l.significand * 10 + d then { l with long := true, scale := l.scale + 1 }
  else { l with significand := l.significand * 10 + d }

/-- A digit after the point. -/
def fractionDigit (l : Literal) (d : Nat) : Literal :=
  let l := { l with phase := .fraction }
  if l.long ∨ 2 ^ 64 ≤ l.significand * 10 + d then { l with long := true }
  else { l with significand := l.significand * 10 + d, scale := l.scale - 1 }

/-- Reading goes on with the literal, stops before the character, or cannot go on. -/
inductive Step where
  | more (l : Literal)
  | stop
  | fault

/-- One character of a literal. -/
def step (l : Literal) (c : UInt8) : Step :=
  let digit := 0x30 ≤ c ∧ c ≤ 0x39
  let mark := c = 0x65 ∨ c = 0x45
  let d := c.toNat - 48
  match l.phase with
  | .minus =>
    if c = 0x30 then .more { l with phase := .zero }
    else if digit then .more { l with phase := .whole, significand := d }
    else .fault
  | .zero =>
    if digit then .fault
    else if c = 0x2e then .more { l with phase := .point }
    else if mark then .more { l with phase := .mark }
    else .stop
  | .whole =>
    if digit then .more (l.wholeDigit d)
    else if c = 0x2e then .more { l with phase := .point, long := false }
    else if mark then .more { l with phase := .mark }
    else .stop
  | .point => if digit then .more (l.fractionDigit d) else .fault
  | .fraction =>
    if digit then .more (l.fractionDigit d)
    else if mark then .more { l with phase := .mark }
    else .stop
  | .mark =>
    if digit then .more { l with phase := .exponent, exponent := d }
    else if c = 0x2b then .more { l with phase := .sign }
    else if c = 0x2d then .more { l with phase := .sign, shrinking := true }
    else .fault
  | .sign => if digit then .more { l with phase := .exponent, exponent := d } else .fault
  | .exponent => if digit then .more { l with exponent := l.exponent * 10 + d } else .stop

/-- The number of a literal that ends here, `none` where it cannot end. -/
def finish? (l : Literal) : Option Numeric :=
  match l.phase with
  | .minus | .point | .mark | .sign => none
  | .zero => some (if l.negative then .other true else .whole 0)
  | .whole =>
    some (if l.long then .other (inRange l.significand l.scale)
      else if !l.negative then .whole (UInt64.ofNat l.significand)
      else if l.significand ≤ 2 ^ 63 then .negative (UInt64.ofNat l.significand)
      else .other (inRange l.significand l.scale))
  | .fraction => some (.other (inRange l.significand l.scale))
  | .exponent =>
    let e : Int := if l.shrinking then l.scale - l.exponent else l.scale + l.exponent
    some (.other (inRange l.significand e))

end Literal
end PoolKeeper.Json
