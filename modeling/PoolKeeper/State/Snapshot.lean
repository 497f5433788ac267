/-
A snapshot: the protocol and its validators as they were at one execution block
and one consensus slot.

A snapshot is made from parts that were read one by one, and only if they agree
with each other: no node, minipool or validator key is listed twice, and every
minipool belongs to a listed node. While this is checked the nodes and minipools
are indexed, so that they are found by their addresses.
-/
import PoolKeeper.Beacon.Basic
import PoolKeeper.State.Minipool
import PoolKeeper.State.NetworkDetails

namespace PoolKeeper

/-- All that is read for a snapshot. -/
structure SnapshotParts where
  elBlock : UInt64
  slot : UInt64
  beaconConfig : BeaconConfig
  isAtlasDeployed : Bool
  network : NetworkDetails
  nodes : List NodeDetails
  minipools : List MinipoolDetails
  validators : Validators

/-- Why parts make no snapshot. -/
inductive Incoherence where
  | nodeTwice (node : Address)
  | minipoolTwice (minipool : Address)
  | unknownNode (minipool node : Address)
  | sharedKey (pubkey : Pubkey)
  deriving DecidableEq

def Incoherence.message : Incoherence → String
  | .nodeTwice node => "node " ++ node.checksum ++ " is listed twice"
  | .minipoolTwice minipool => "minipool " ++ minipool.checksum ++ " is listed twice"
  | .unknownNode minipool node =>
    "minipool " ++ minipool.checksum ++ " belongs to unknown node " ++ node.checksum
  | .sharedKey pubkey => "validator " ++ pubkey.text ++ " is claimed by more than one minipool"

/-- Where nodes and minipools stand in their lists. -/
structure Index where
  /-- The position of a node, by its address. -/
  nodes : KeyMap 20 Nat
  /-- The position of a minipool, by its address. -/
  minipools : KeyMap 20 Nat
  /-- The positions of a node's minipools, by the address of the node. -/
  minipoolsOf : KeyMap 20 (List Nat)
  deriving DecidableEq

namespace Index

def empty : Index := ⟨.empty, .empty, .empty⟩

/-- The index with one more minipool, which stands at a position. -/
def addMinipool (i : Index) (m : MinipoolDetails) (position : Nat) : Index :=
  { i with
    minipools := i.minipools.insert m.address position
    minipoolsOf := i.minipoolsOf.insert m.nodeAddress
      ((i.minipoolsOf.get? m.nodeAddress).getD [] ++ [position]) }

end Index

namespace SnapshotParts

/-- The positions of nodes by their addresses, after those of the nodes before
them. It fails at the first node that is listed again. -/
def indexNodes (known : KeyMap 20 Nat) (position : Nat) :
    List NodeDetails → Except Incoherence (KeyMap 20 Nat)
  | [] => .ok known
  | n :: ns =>
    if known.contains n.address then .error (.nodeTwice n.address)
    else indexNodes (known.insert n.address position) (position + 1) ns

/-- The index with minipools added, after those before them, which have these
keys. It fails at the first minipool with which something is wrong. -/
def indexMinipools (i : Index) (keys : KeyMap 48 Unit) (position : Nat) :
    List MinipoolDetails → Except Incoherence Index
  | [] => .ok i
  | m :: ms =>
    if i.minipools.contains m.address then .error (.minipoolTwice m.address)
    else if i.nodes.contains m.nodeAddress = false then
      .error (.unknownNode m.address m.nodeAddress)
    else if m.hasPubkey ∧ keys.contains m.pubkey then .error (.sharedKey m.pubkey)
    else indexMinipools (i.addMinipool m position)
      (if m.hasPubkey then keys.insert m.pubkey () else keys) (position + 1) ms

/-- The index of the parts, or the first thing that keeps them from making a
snapshot. -/
def index (p : SnapshotParts) : Except Incoherence Index := do
  let nodes ← indexNodes .empty 0 p.nodes
  indexMinipools { Index.empty with nodes } .empty 0 p.minipools

end SnapshotParts

/-- Parts that agree with each other, and their index. -/
structure Snapshot where
  parts : SnapshotParts
  index : Index
  indexed : parts.index = .ok index

namespace Snapshot

/-- The snapshot that parts make. -/
def ofParts (p : SnapshotParts) : Except Incoherence Snapshot :=
  match h : p.index with
  | .error e => .error e
  | .ok index => .ok ⟨p, index, h⟩

variable (s : Snapshot)

def node? (a : Address) : Option NodeDetails := do
  s.parts.nodes[← s.index.nodes.get? a]?

def minipool? (a : Address) : Option MinipoolDetails := do
  s.parts.minipools[← s.index.minipools.get? a]?

/-- The minipools of a node, in their order. -/
def minipoolsOf (a : Address) : List MinipoolDetails :=
  ((s.index.minipoolsOf.get? a).getD []).filterMap (s.parts.minipools[·]?)

def validator? (key : Pubkey) : Option ValidatorStatus := s.parts.validators.get? key

/-- The unix time of the slot. -/
def slotTime : UInt64 := s.parts.beaconConfig.slotTime s.parts.slot

/-- The epoch of the slot. -/
def epoch : UInt64 := s.parts.beaconConfig.epochOf s.parts.slot

def json : Json :=
  .object [
    ("elBlock", .ofUInt64 s.parts.elBlock),
    ("slot", .ofUInt64 s.parts.slot),
    ("beaconConfig", s.parts.beaconConfig.json),
    ("isAtlasDeployed", .bool s.parts.isAtlasDeployed),
    ("network", s.parts.network.json),
    ("nodes", .array (s.parts.nodes.map NodeDetails.json)),
    ("minipools", .array (s.parts.minipools.map MinipoolDetails.json)),
    ("validators", s.parts.validators.json)]

end Snapshot
end PoolKeeper
