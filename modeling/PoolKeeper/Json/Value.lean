/-
JSON values to be written: their compact and their indented form. Every number
that is written is a natural number, and members keep their order.
-/
import PoolKeeper.Bytes

namespace PoolKeeper

/-- A JSON value as it is written. -/
inductive Json where
  | null
  | bool (b : Bool)
  | number (n : Nat)
  | string (s : String)
  | array (items : List Json)
  | object (members : List (String × Json))

namespace Json

/-- A number beyond 64 bits is shown as a string of decimal digits. -/
def decimal (n : Nat) : Json := .string (Numeral.decimal n)

def ofUInt64 (n : UInt64) : Json := .number n.toNat

def ofOption {α : Type} (f : α → Json) : Option α → Json
  | none => .null
  | some a => f a

def strings (xs : List String) : Json := .array (xs.map .string)

/-- One byte of a string between quotes. Only quotes, backslashes and control
characters are escaped, the common ones by a letter. -/
def escapeByte (b : UInt8) : Bytes :=
  if b = 0x22 then [0x5c, 0x22]
  else if b = 0x5c then [0x5c, 0x5c]
  else if b = 0x08 then [0x5c, 0x62]
  else if b = 0x0c then [0x5c, 0x66]
  else if b = 0x0a then [0x5c, 0x6e]
  else if b = 0x0d then [0x5c, 0x72]
  else if b = 0x09 then [0x5c, 0x74]
  else if b < 0x20 then
    [0x5c, 0x75, 0x30, 0x30, UInt8.ofNat (Numeral.digitChar (b.toNat / 16)).toNat,
      UInt8.ofNat (Numeral.digitChar (b.toNat % 16)).toNat]
  else [b]

/-- A text between quotes. -/
def quote (s : String) : Bytes := 0x22 :: ((Bytes.ofText s).flatMap escapeByte ++ [0x22])

/-- The decimal digits of a number. -/
def digits (n : Nat) : Bytes := (Numeral.chars 10 n).map fun c => UInt8.ofNat c.toNat

mutual
/-- The compact form: no blanks at all. -/
def write : Json → Bytes
  | .null => [0x6e, 0x75, 0x6c, 0x6c]
  | .bool true => [0x74, 0x72, 0x75, 0x65]
  | .bool false => [0x66, 0x61, 0x6c, 0x73, 0x65]
  | .number n => digits n
  | .string s => quote s
  | .array [] => [0x5b, 0x5d]
  | .array (x :: xs) => 0x5b :: (write x ++ writeItems xs)
  | .object [] => [0x7b, 0x7d]
  | .object ((k, v) :: ms) => 0x7b :: (quote k ++ 0x3a :: (write v ++ writeMembers ms))

/-- What follows the first item of an array. -/
def writeItems : List Json → Bytes
  | [] => [0x5d]
  | x :: xs => 0x2c :: (write x ++ writeItems xs)

/-- What follows the first member of an object. -/
def writeMembers : List (String × Json) → Bytes
  | [] => [0x7d]
  | (k, v) :: ms => 0x2c :: (quote k ++ 0x3a :: (write v ++ writeMembers ms))
end

/-- A new line, two blanks for each level. -/
def newLine (level : Nat) : Bytes := 0x0a :: List.replicate (2 * level) 0x20

mutual
/-- The indented form: one item or member a line. -/
def writePretty (level : Nat) : Json → Bytes
  | .array (x :: xs) =>
    0x5b :: (newLine (level + 1) ++ writePretty (level + 1) x ++ writePrettyItems level xs)
  | .object ((k, v) :: ms) =>
    0x7b :: (newLine (level + 1) ++ quote k ++ 0x3a :: 0x20 ::
      (writePretty (level + 1) v ++ writePrettyMembers level ms))
  | .array [] => [0x5b, 0x5d]
  | .object [] => [0x7b, 0x7d]
  | v => write v

def writePrettyItems (level : Nat) : List Json → Bytes
  | [] => newLine level ++ [0x5d]
  | x :: xs =>
    0x2c :: (newLine (level + 1) ++ writePretty (level + 1) x ++ writePrettyItems level xs)

def writePrettyMembers (level : Nat) : List (String × Json) → Bytes
  | [] => newLine level ++ [0x7d]
  | (k, v) :: ms =>
    0x2c :: (newLine (level + 1) ++ quote k ++ 0x3a :: 0x20 ::
      (writePretty (level + 1) v ++ writePrettyMembers level ms))
end

/-- The compact form as a text. -/
def text (v : Json) : String := (Bytes.text? v.write).getD ""

end Json
end PoolKeeper
