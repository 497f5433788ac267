/-
Values on the command line and in environment variables.
-/
import PoolKeeper.CommandLine.Usage
import PoolKeeper.Double
import PoolKeeper.FixedBytes
import PoolKeeper.Http.Url
import PoolKeeper.Network

namespace PoolKeeper

/-- Reads a value from its text. -/
abbrev ValueReader (α : Type) := String → Except UsageError α

namespace ValueReader

/-- A text of a certain form. -/
def parsed {α : Type} (parse : String → Option α) : ValueReader α := fun s =>
  (parse s).elim (.error .unreadableValue) .ok

/-- One of some texts. -/
def oneOf {α : Type} (parse : String → Option α) : ValueReader α := fun s =>
  (parse s).elim (.error .invalidValue) .ok

def text : ValueReader String := .ok

/-- A path, which may not be empty. -/
def path : ValueReader String := oneOf fun s => if s.isEmpty then none else some s

def bool : ValueReader Bool := oneOf fun s =>
  if s = "true" then some true else if s = "false" then some false else none

/-- Decimal digits, perhaps behind a plus sign, of a number below a bound. -/
def below (bound : Nat) : ValueReader Nat :=
  parsed fun s => (Numeral.readUnsigned s).filter (· < bound)

def uint64 : ValueReader UInt64 := fun s => (below (2 ^ 64) s).map UInt64.ofNat

/-- A number that is not zero. -/
def positive : ValueReader UInt64 := fun s =>
  (uint64 s).bind fun n => if n = 0 then .error .unreadableValue else .ok n

def network : ValueReader Network := oneOf Network.ofName?

def address : ValueReader Address := parsed FixedBytes.ofText?

def url : ValueReader Url := parsed fun s => (Url.parse s).toOption

/-! ## Fractions -/

/-- Decimal digits, at least one. -/
def digits? (cs : List Char) : Option Nat := if cs.isEmpty then none else Numeral.readDigits 10 cs

/-- The exponent behind its mark. -/
def exponent? : List Char → Option Int
  | '-' :: cs => (digits? cs).map fun n => -(n : Int)
  | '+' :: cs => (digits? cs).map Int.ofNat
  | cs => (digits? cs).map Int.ofNat

/-- Digits with or without a point, and an exponent that may follow them. -/
def decimal? (cs : List Char) : Option Float := do
  let (front, mark) := cs.span fun c => c ≠ 'e' && c ≠ 'E'
  let exponent ← match mark with
    | [] => some 0
    | _ :: cs => exponent? cs
  let (whole, point) := front.span (· ≠ '.')
  let fraction := point.drop 1
  let significand ← digits? (whole ++ fraction)
  return Double.ofDecimal significand (exponent - fraction.length)

/-- A number without its sign, or one of the values that are no number. -/
def unsigned? (cs : List Char) : Option Float :=
  match String.ofList (cs.map Char.toLower) with
  | "inf" | "infinity" => some (1.0 / 0.0)
  | "nan" => some (0.0 / 0.0)
  | _ => decimal? cs

def float : ValueReader Float := parsed fun s =>
  match s.toList with
  | '-' :: cs => (unsigned? cs).map (- ·)
  | '+' :: cs => unsigned? cs
  | cs => unsigned? cs

end ValueReader
end PoolKeeper
