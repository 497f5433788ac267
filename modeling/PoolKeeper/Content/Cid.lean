/-
Content identifiers: version 1, addressing either raw bytes or a node of a
graph by their SHA-256 digest, and written in base 32 behind the letter `b`.
-/
import PoolKeeper.Content.Base32
import PoolKeeper.Content.Varint
import PoolKeeper.FixedBytes

namespace PoolKeeper

/-- What an identifier points at. -/
inductive Codec where
  | raw
  | graphNode
  deriving DecidableEq

namespace Codec

def code : Codec → Nat
  | .raw => 0x55
  | .graphNode => 0x70

def ofCode? (n : Nat) : Option Codec :=
  if n = 0x55 then some .raw else if n = 0x70 then some .graphNode else none

end Codec

structure Cid where
  codec : Codec
  digest : Hash
  deriving DecidableEq

namespace Cid

/-- The codes of the version, of SHA-256 and of its length. -/
def version : Nat := 1
def sha256Code : Nat := 0x12
def digestLength : Nat := 32

/-- Version, codec and digest, the numbers as varints. -/
def toBytes (c : Cid) : Bytes :=
  Varint.encode version ++ (Varint.encode c.codec.code ++
    (Varint.encode sha256Code ++ (Varint.encode digestLength ++ c.digest.toBytes)))

def text (c : Cid) : String := String.ofList ('b' :: Base32.encode c.toBytes)

/-- Reads the binary form. -/
def ofBytes? (bs : Bytes) : Option Cid := do
  let (v, bs) ← Varint.decode? bs
  let (codec, bs) ← Varint.decode? bs
  let (hash, bs) ← Varint.decode? bs
  let (length, bs) ← Varint.decode? bs
  let codec ← Codec.ofCode? codec
  if v = version ∧ hash = sha256Code ∧ length = digestLength then
    return ⟨codec, ← FixedBytes.ofBytes? bs⟩
  else none

/-- Reads the text form, its letters in either case apart from the first. -/
def ofText? (s : String) : Option Cid :=
  match s.toList with
  | 'b' :: cs => (Base32.decode? cs).bind ofBytes?
  | _ => none

/-- What is said of a text that is no identifier. -/
def invalidMessage (s : String) : String := "invalid content identifier '" ++ s ++ "'"

end Cid
end PoolKeeper
