/-
What the chain records of a node.
-/
import PoolKeeper.Rewards.Json

namespace PoolKeeper

/-- A 64-bit number as decimal digits between quotes. -/
def quotedJson (n : UInt64) : Json := .decimal n.toNat

structure NodeDetails where
  address : Address
  doesExist : Bool
  /-- In unix time. -/
  registrationTime : UInt64
  rplStake : Word
  smoothingPoolRegistered : Bool
  minipoolCount : UInt64
  deriving DecidableEq

namespace NodeDetails

def json (n : NodeDetails) : Json :=
  .object [
    ("address", n.address.json),
    ("exists", .bool n.doesExist),
    ("registrationTime", quotedJson n.registrationTime),
    ("rplStake", n.rplStake.json),
    ("smoothingPoolRegistered", .bool n.smoothingPoolRegistered),
    ("minipoolCount", quotedJson n.minipoolCount)]

open Json in
def reader : Reader NodeDetails :=
  record (NodeDetails.mk
    <$> field "address" .fixedBytes
    <*> field "exists" .bool
    <*> field "registrationTime" .quotedUInt64
    <*> field "rplStake" .quotedWord
    <*> fieldOr "smoothingPoolRegistered" false .bool
    <*> fieldOr "minipoolCount" 0 .quotedUInt64)

end NodeDetails
end PoolKeeper
