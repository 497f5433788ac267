/-
Hosts of URLs: names, and the two kinds of network addresses with their many
ways of being written.
-/
import PoolKeeper.Http.Percent
import PoolKeeper.Text

namespace PoolKeeper

namespace Host

inductive Fault where
  | empty
  | international
  | ipv4
  | ipv6
  | forbidden
  deriving DecidableEq

/-! ## Addresses of four bytes -/

/-- A part of an address: hexadecimal behind `0x`, octal behind `0`, else
decimal. Nothing at all behind the mark is zero. -/
def number? : List Char → Option Nat
  | [] => none
  | '0' :: 'x' :: cs => Numeral.readDigits 16 cs
  | '0' :: 'X' :: cs => Numeral.readDigits 16 cs
  | '0' :: cs => Numeral.readDigits 8 cs
  | cs => Numeral.readDigits 10 cs

/-- The parts between points, a point at the end being no part of them. -/
def parts (cs : List Char) : List (List Char) :=
  let ps := Text.splitOn '.' cs
  if ps.getLast? = some [] ∧ 1 < ps.length then ps.dropLast else ps

/-- A host whose last part is a number is an address, or nothing. -/
def endsInNumber (cs : List Char) : Bool :=
  match (parts cs).getLast? with
  | some last => (!last.isEmpty && last.all Char.isDigit) || (number? last).isSome
  | none => false

/-- The four bytes that numbers stand for: one each, and the last number for
all that are left. -/
def bytesOfNumbers (ns : List Nat) : Option Bytes :=
  match ns.reverse with
  | [] => none
  | last :: front =>
    let front := front.reverse
    if front.length ≤ 3 ∧ front.all (· < 256) ∧ last < 256 ^ (4 - front.length) then
      some (front.map UInt8.ofNat ++ Bytes.bigEndian (4 - front.length) last)
    else none

def ipv4? (cs : List Char) : Option Bytes := ((parts cs).mapM number?).bind bytesOfNumbers

def ipv4Text (bs : Bytes) : String := ".".intercalate (bs.map fun b => Numeral.decimal b.toNat)

/-! ## Addresses of eight groups -/

/-- One to four hexadecimal digits. -/
def group? (cs : List Char) : Option Nat :=
  if 1 ≤ cs.length ∧ cs.length ≤ 4 then Numeral.readDigits 16 cs else none

/-- A decimal byte without needless zeros. -/
def decimalByte? (cs : List Char) : Option Nat :=
  if 1 ≤ cs.length ∧ cs.length ≤ 3 ∧ (cs.head? ≠ some '0' ∨ cs.length = 1) then
    (Numeral.readDigits 10 cs).filter (· < 256)
  else none

/-- Groups between colons. The last two may be written as four bytes, if that
is allowed here. -/
def groups? (bytesAllowed : Bool) : List (List Char) → Option (List Nat)
  | [] => some []
  | [last] =>
    if last.contains '.' then
      match bytesAllowed, (Text.splitOn '.' last).mapM decimalByte? with
      | true, some [a, b, c, d] => some [a * 256 + b, c * 256 + d]
      | _, _ => none
    else (group? last).map fun n => [n]
  | cs :: rest => do return (← group? cs) :: (← groups? bytesAllowed rest)

/-- What stands before and behind the first double colon. -/
def splitGap : List Char → Option (List Char × List Char)
  | ':' :: ':' :: cs => some ([], cs)
  | c :: cs => (splitGap cs).map fun (a, b) => (c :: a, b)
  | [] => none

/-- Groups in a text, of which there may be none. -/
def someGroups? (bytesAllowed : Bool) (cs : List Char) : Option (List Nat) :=
  if cs.isEmpty then some [] else groups? bytesAllowed (Text.splitOn ':' cs)

/-- The eight groups of an address. A double colon stands for zeros, at least one. -/
def ipv6? (cs : List Char) : Option (List Nat) :=
  match splitGap cs with
  | none => (groups? true (Text.splitOn ':' cs)).filter fun gs => gs.length = 8
  | some (front, back) => do
    let front ← someGroups? false front
    let back ← someGroups? true back
    let given := front.length + back.length
    if given ≤ 7 then return front ++ List.replicate (8 - given) 0 ++ back else none

/-- How many zeros a list starts with. -/
def leadingZeros (gs : List Nat) : Nat := (gs.takeWhile (· = 0)).length

/-- Where the longest run of zeros starts, and its length; the first of several. -/
def longestGap : (i : Nat) → List Nat → Nat × Nat
  | _, [] => (0, 0)
  | i, g :: gs =>
    let here := leadingZeros (g :: gs)
    let later := longestGap (i + 1) gs
    if later.2 ≤ here then (i, here) else later

def groupsText (gs : List Nat) : String := ":".intercalate (gs.map (Numeral.text 16))

/-- The groups in hexadecimal, the longest run of more than one zero left out. -/
def ipv6Text (gs : List Nat) : String :=
  let (start, size) := longestGap 0 gs
  if size < 2 then groupsText gs
  else groupsText (gs.take start) ++ "::" ++ groupsText (gs.drop (start + size))

/-! ## Names -/

/-- Characters that may not be in a name. -/
def isForbidden (c : Char) : Bool :=
  c ≤ ' ' || c = '\x7f' || "#%/:<>?@[\\]^|".toList.contains c

/-- A host behind a scheme that everybody knows. Names are ASCII, in lower case. -/
def ofChars (cs : List Char) : Except Fault String := do
  if cs.head? = some '[' then
    match cs.getLast?, ipv6? (cs.drop 1).dropLast with
    | some ']', some gs => return "[" ++ ipv6Text gs ++ "]"
    | _, _ => throw .ipv6
  if cs.any fun c => '\x7f' < c then throw .international
  let decoded := Percent.decode cs
  if decoded.any fun b => 0x7f < b then throw .international
  let name := decoded.map fun b => (Char.ofNat b.toNat).toLower
  if name.isEmpty then throw .empty
  if name.any isForbidden then throw .forbidden
  if endsInNumber name then
    match ipv4? name with
    | some bs => return ipv4Text bs
    | none => throw .ipv4
  return String.ofList name

/-- Characters that may not be in any host. -/
def isForbiddenAnywhere (c : Char) : Bool :=
  c = '\x00' || c = '\t' || c = '\n' || c = '\r' || " #/:<>?@[\\]^|".toList.contains c

/-- A host behind any other scheme: kept as it is written. -/
def plain (cs : List Char) : Except Fault String := do
  if cs.head? = some '[' then
    match cs.getLast?, ipv6? (cs.drop 1).dropLast with
    | some ']', some gs => return "[" ++ ipv6Text gs ++ "]"
    | _, _ => throw .ipv6
  if cs.any isForbiddenAnywhere then throw .forbidden
  return String.ofList (Percent.encode Percent.plain cs)

end Host
end PoolKeeper
