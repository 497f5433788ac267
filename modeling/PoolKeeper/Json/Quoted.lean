/-
Strings between quotes, one byte at a time.

The state keeps the bytes that the string stands for. Escapes for the two
halves of a surrogate pair must follow each other; where they do not, or where
the bytes are not UTF-8, the string is no text but still ends at its quote.
-/
import PoolKeeper.Json.Tree

namespace PoolKeeper.Json

/-- What the next byte of a string belongs to. -/
inductive Quoted.Phase where
  | plain
  | escape
  | code (digits : Nat) (value : Nat)
  deriving DecidableEq

/-- A string that is being read: its bytes, newest first. -/
structure Quoted where
  phase : Quoted.Phase
  bytes : Bytes
  high : Option Nat
  isText : Bool

namespace Quoted

def start : Quoted := ⟨.plain, [], none, true⟩

/-- The UTF-8 bytes of a code point. -/
def utf8 (n : Nat) : Bytes :=
  let low (k : Nat) := UInt8.ofNat (0x80 + n / 64 ^ k % 64)
  if n < 0x80 then [UInt8.ofNat n]
  else if n < 0x800 then [UInt8.ofNat (0xc0 + n / 64), low 0]
  else if n < 0x10000 then [UInt8.ofNat (0xe0 + n / 4096), low 1, low 0]
  else [UInt8.ofNat (0xf0 + n / 262144), low 2, low 1, low 0]

/-- Adds bytes; a high surrogate that still waits for its partner makes the
string no text. -/
def add (q : Quoted) (bs : Bytes) : Quoted :=
  { phase := .plain, bytes := bs.reverse ++ q.bytes, high := none,
    isText := q.isText && q.high.isNone }

/-- Adds the unit that a four-digit escape names. -/
def addUnit (q : Quoted) (n : Nat) : Quoted :=
  match q.high with
  | some h =>
    if 0xdc00 ≤ n ∧ n ≤ 0xdfff then
      { q with phase := .plain, high := none,
               bytes := (utf8 (0x10000 + (h - 0xd800) * 0x400 + (n - 0xdc00))).reverse ++ q.bytes }
    else { q with phase := .plain, high := none, isText := false }
  | none =>
    if 0xd800 ≤ n ∧ n ≤ 0xdbff then { q with phase := .plain, high := some n }
    else if 0xdc00 ≤ n ∧ n ≤ 0xdfff then { q with phase := .plain, isText := false }
    else q.add (utf8 n)

/-- The byte that a one-letter escape stands for. -/
def escaped? (c : UInt8) : Option UInt8 :=
  if c = 0x22 ∨ c = 0x5c ∨ c = 0x2f then some c
  else if c = 0x62 then some 0x08
  else if c = 0x66 then some 0x0c
  else if c = 0x6e then some 0x0a
  else if c = 0x72 then some 0x0d
  else if c = 0x74 then some 0x09
  else none

inductive Step where
  | more (q : Quoted)
  | closed (s : Option String)
  | fault

/-- One byte of a string. -/
def step (q : Quoted) (c : UInt8) : Step :=
  match q.phase with
  | .plain =>
    if c = 0x22 then
      .closed (if q.isText ∧ q.high.isNone then Bytes.text? q.bytes.reverse else none)
    else if c = 0x5c then .more { q with phase := .escape }
    else if c < 0x20 then .fault
    else .more (q.add [c])
  | .escape =>
    if c = 0x75 then .more { q with phase := .code 0 0 }
    else match escaped? c with
      | some b => .more (q.add [b])
      | none => .fault
  | .code digits value =>
    match Bytes.hexValue? (Char.ofNat c.toNat) with
    | none => .fault
    | some d =>
      if digits = 3 then .more (q.addUnit (value * 16 + d))
      else .more { q with phase := .code (digits + 1) (value * 16 + d) }

end Quoted
end PoolKeeper.Json
