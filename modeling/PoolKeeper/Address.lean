/-
Addresses as messages show them: the case of each letter is a checksum.
-/
import PoolKeeper.Hash.Keccak

namespace PoolKeeper.Address

/-- Mixed-case text: a letter is upper case where the digest of the lower-case
digits has a digit of eight or more. -/
def checksum (a : Address) : String :=
  let cs := Bytes.toHexChars a.toBytes
  let digest := (keccak256 (cs.map fun c => UInt8.ofNat c.toNat)).toBytes
  let marks := digest.flatMap fun b => [b.toNat / 16, b.toNat % 16]
  "0x" ++ String.ofList (cs.zipWith (fun c m => if 8 ≤ m then c.toUpper else c) marks)

end PoolKeeper.Address
