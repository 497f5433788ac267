/-
Readers: from the tree of a text to a value of a wanted shape, or the place
where the text first departs from it.

A text can fail in two ways. It is broken where it is not JSON; it is a misfit
at a path where it is JSON, but not of the shape that is wanted there.
-/
import PoolKeeper.Json.Scan
import PoolKeeper.FixedBytes
import PoolKeeper.Text

namespace PoolKeeper.Json

/-- One step from a value to a part of it. -/
inductive Segment where
  | key (k : String)
  | index (i : Nat)
  deriving DecidableEq

/-- The way from the whole value to a part, the last step first. -/
abbrev Path := List Segment

namespace Path

/-- Steps after the first. -/
def rest : List Segment → String
  | [] => ""
  | .key k :: ss => "." ++ k ++ rest ss
  | .index i :: ss => "[" ++ Numeral.decimal i ++ "]" ++ rest ss

/-- Keys joined by points, indices in brackets; the whole value is a point. -/
def text (p : Path) : String :=
  match p.reverse with
  | [] => "."
  | .key k :: ss => k ++ rest ss
  | ss => rest ss

end Path

inductive ReadError where
  | broken
  | misfit (path : Path)
  deriving DecidableEq

/-- Reads a part of a value, given the way to it. -/
abbrev Reader (α : Type) := Path → Tree → Except ReadError α

namespace Reader

/-- Why a value is not of the wanted kind. A scalar is taken in before its kind
is looked at, so it must be sound; a container is not. -/
def mismatch (path : Path) : Tree → ReadError
  | .fault => .broken
  | .string none => .broken
  | .number (.other false) => .broken
  | _ => .misfit path

/-- Containers that may still be opened inside a value at a path. -/
def depthLeft (path : Path) : Nat := 127 - path.length

def bool : Reader Bool := fun path t =>
  match t with
  | .bool b => .ok b
  | t => .error (mismatch path t)

/-- A natural number below 2⁶⁴ in plain digits. -/
def uint64 : Reader UInt64 := fun path t =>
  match t with
  | .number (.whole n) => .ok n
  | t => .error (mismatch path t)

/-- A whole number of 64 bits, one of them for the sign. -/
def int64 : Reader Int := fun path t =>
  match t with
  | .number (.whole n) => if n.toNat < 2 ^ 63 then .ok n.toNat else .error (.misfit path)
  | .number (.negative n) => .ok (-n.toNat)
  | t => .error (mismatch path t)

/-- Any number at all. -/
def anyNumber : Reader Unit := fun path t =>
  match t with
  | .number (.other false) => .error .broken
  | .number _ => .ok ()
  | t => .error (mismatch path t)

def string : Reader String := fun path t =>
  match t with
  | .string (some s) => .ok s
  | t => .error (mismatch path t)

/-- A string of a certain form. -/
def parsed {α : Type} (parse : String → Option α) : Reader α := fun path t =>
  match t with
  | .string (some s) => (parse s).elim (.error (.misfit path)) .ok
  | t => .error (mismatch path t)

/-- A plain number, or a string of a certain form. The value is taken in as a
whole before it is looked at. -/
def numberOr {α : Type} (ofNumber : UInt64 → α) (parse : String → Option α) : Reader α :=
  fun path t =>
    match t with
    | .number (.whole n) => .ok (ofNumber n)
    | .string (some s) => (parse s).elim (.error (.misfit path)) .ok
    | t => .error (if t.unreadable (depthLeft path) then .broken else .misfit path)

/-- A word as decimal digits between quotes. -/
def quotedDecimal : Reader Word :=
  parsed fun s => Word.ofDigits? 10 (Text.trimmed s.toList)

/-- A 64-bit number, plain or between quotes. -/
def quotedUInt64 : Reader UInt64 :=
  numberOr id fun s =>
    (Numeral.readUnsigned (String.ofList (Text.trimmed s.toList))).bind fun n =>
      if n < 2 ^ 64 then some (UInt64.ofNat n) else none

/-- A word as a plain number, or between quotes in decimal digits or, behind
`0x`, in hexadecimal ones. -/
def quotedWord : Reader Word :=
  numberOr Word.ofUInt64 fun s =>
    match Text.trimmed s.toList with
    | '0' :: 'x' :: cs => Word.ofDigits? 16 cs
    | cs => Word.ofDigits? 10 cs

/-- The digits of a word in the base that its first two characters name. -/
def wordDigits? : List Char → Option Word
  | '0' :: 'x' :: cs => Word.ofDigits? 16 cs
  | '0' :: 'X' :: cs => Word.ofDigits? 16 cs
  | '0' :: 'o' :: cs => Word.ofDigits? 8 cs
  | '0' :: 'O' :: cs => Word.ofDigits? 8 cs
  | '0' :: 'b' :: cs => Word.ofDigits? 2 cs
  | '0' :: 'B' :: cs => Word.ofDigits? 2 cs
  | cs => Word.ofDigits? 10 cs

/-- A word as a plain number or a string of digits in any of four bases. -/
def word : Reader Word := fun path t =>
  match t with
  | .number (.whole n) => .ok (Word.ofUInt64 n)
  | t => parsed (fun s => wordDigits? s.toList) path t

/-- Items one after the other, numbered from `i`. -/
def items {α : Type} (r : Reader α) (path : Path) : Nat → List Tree → Except ReadError (List α)
  | _, [] => .ok []
  | i, t :: ts => do
    let a ← r (.index i :: path) t
    return a :: (← items r path (i + 1) ts)

def list {α : Type} (r : Reader α) : Reader (List α) := fun path t =>
  match t with
  | .array ts closed => do
    let as ← items r path 0 ts
    if closed then return as else throw .broken
  | t => .error (mismatch path t)

/-- The value as it is, if there is no fault in it. -/
def anything : Reader Tree := fun _ t => if t.faulty then .error .broken else .ok t

/-- Nothing for `null`. -/
def optional {α : Type} (r : Reader α) : Reader (Option α) := fun path t =>
  match t with
  | .null => .ok none
  | t => (r path t).map some

/-- A number below 256. -/
def byte : Reader UInt8 := fun path t =>
  match t with
  | .number (.whole n) => if n < 256 then .ok n.toUInt8 else .error (.misfit path)
  | t => .error (mismatch path t)

/-- A scalar that is sound in itself. -/
def isSoundScalar : Tree → Bool
  | .null | .bool _ | .number _ | .string (some _) => true
  | _ => false

/-- What may follow the last byte of a fixed number of them: nothing, or one
scalar that is no byte, which is overlooked. -/
def afterBytes (path : Path) (closed : Bool) : List Tree → Except ReadError Unit
  | [] => if closed then .ok () else .error .broken
  | t :: ts =>
    match byte path t with
    | .ok _ => .error (.misfit path)
    | .error _ => if isSoundScalar t ∧ ts.isEmpty ∧ closed then .ok () else .error .broken

/-- `n` bytes as hexadecimal text or as an array of numbers. -/
def fixedBytes {n : Nat} : Reader (FixedBytes n) := fun path t =>
  match t with
  | .string (some s) => (FixedBytes.ofText? s).elim (.error (.misfit path)) .ok
  | .array ts closed => do
    let bs ← items byte path 0 (ts.take n)
    if bs.length = n then
      afterBytes path closed (ts.drop n)
      return .ofNat (Bytes.toNat bs)
    else throw (if closed then .misfit path else .broken)
  | t => .error (mismatch path t)

/-- One of several names, alone or as the only key of an object that holds
`null` under it. -/
def named {α : Type} (parse : String → Option α) : Reader α := fun path t =>
  match t with
  | .string (some s) => (parse s).elim (.error (.misfit path)) .ok
  | .object ((some k, v) :: ms) closed =>
    match parse k with
    | none => .error (.misfit path)
    | some a =>
      match v with
      | .null => if ms.isEmpty ∧ closed then .ok a else .error .broken
      | v => .error (mismatch (.key k :: path) v)
  | .keyless t => .error (mismatch path t)
  | _ => .error .broken

/-- The entries of an object whose keys have a certain form, in the order of
the text. -/
def entries {κ α : Type} (parse : String → Option κ) (r : Reader α) (path : Path) :
    List (Option String × Tree) → Except ReadError (List (κ × α))
  | [] => .ok []
  | (none, _) :: _ => .error .broken
  | (some k, t) :: ms =>
    match parse k with
    | none => .error (.misfit (.key k :: path))
    | some key => do
      let a ← r (.key k :: path) t
      return (key, a) :: (← entries parse r path ms)

def mapOf {κ α : Type} (parse : String → Option κ) (r : Reader α) : Reader (List (κ × α)) :=
  fun path t =>
    match t with
    | .object ms closed => do
      let es ← entries parse r path ms
      if closed then return es else throw .broken
    | .keyless _ => .error .broken
    | t => .error (mismatch path t)

end Reader

/-- Reads the first value of a text. What follows it is not looked at. -/
def Reader.read {α : Type} (r : Reader α) (text : Bytes) : Except ReadError α :=
  r [] (Tree.scan text)

end PoolKeeper.Json
