/-
Percent encoding: the characters that may not stand in a part of a URL are
written as the bytes of their UTF-8 form, each as `%` and two hexadecimal
digits.
-/
import PoolKeeper.Bytes

namespace PoolKeeper.Percent

/-- ASCII characters that are written in another way in some part of a URL.
Control characters always are, and so are all that are not ASCII. -/
abbrev Reserved := List Char

def fragment : Reserved := [' ', '\x22', '<', '>', '\x60']

def path : Reserved := fragment ++ ['#', '?', '\x7b', '\x7d']

def userinfo : Reserved := path ++ ['/', ':', ';', '=', '@', '[', '\\', ']', '^', '|']

def query : Reserved := [' ', '\x22', '#', '<', '>']

/-- A query behind a scheme that everybody knows. -/
def specialQuery : Reserved := '\x27' :: query

/-- A path that is no list of segments. -/
def plain : Reserved := []

def isReserved (r : Reserved) (c : Char) : Bool :=
  c < ' ' || '\x7f' ≤ c || r.contains c

/-- A byte as `%` and two digits, letters in upper case. -/
def encodeByte (b : UInt8) : List Char :=
  let digit (d : Nat) : Char := (Numeral.digitChar d).toUpper
  ['%', digit (b.toNat / 16), digit (b.toNat % 16)]

def encodeChar (r : Reserved) (c : Char) : List Char :=
  if isReserved r c then (Bytes.ofText (String.ofList [c])).flatMap encodeByte else [c]

/-- Writes reserved characters as their bytes. -/
def encode (r : Reserved) (cs : List Char) : List Char := cs.flatMap (encodeChar r)

/-- The bytes that ASCII characters stand for. A `%` that no two digits follow
stands for itself. -/
def decode : List Char → Bytes
  | '%' :: a :: b :: cs =>
    match Bytes.ofHexChars? [a, b] with
    | some [byte] => byte :: decode cs
    | _ => 0x25 :: decode (a :: b :: cs)
  | c :: cs => UInt8.ofNat c.toNat :: decode cs
  | [] => []

end PoolKeeper.Percent
