/-
Where rewards files are published: file names, and the URLs of mirrors.
-/
import PoolKeeper.Network
import PoolKeeper.Numeral
import PoolKeeper.Text

namespace PoolKeeper

/-- What the names of compressed files end with. -/
def compressedExtension : String := ".zst"

/-- The name of an interval's rewards file. -/
def publishedName (network : Network) (interval : UInt64) : String :=
  "rp-rewards-" ++ network.name ++ "-" ++ Numeral.decimal interval.toNat ++ ".json"

/-- A place to download from. In the template `{cid}`, `{network}` and
`{filename}` stand for what they name. -/
structure Mirror where
  template : String
  /-- The mirror serves the compressed file. -/
  compressed : Bool
  deriving DecidableEq

namespace Mirror

/-- The name under which the mirror serves a file. -/
def servedName (m : Mirror) (fileName : String) : String :=
  if m.compressed then fileName ++ compressedExtension else fileName

/-- A template with one name filled in. -/
def fill (name value : String) (template : List Char) : List Char :=
  Text.replaceAll ('{' :: name.toList ++ ['}']) value.toList template

/-- The URL of a file. -/
def url (m : Mirror) (cid : String) (network : Network) (fileName : String) : String :=
  String.ofList <| fill "filename" (m.servedName fileName) <|
    fill "network" network.name <| fill "cid" cid m.template.toList

end Mirror
end PoolKeeper
