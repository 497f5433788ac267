/-
The consensus layer held in memory, answering every call at once.
-/
import PoolKeeper.Beacon.Basic

namespace PoolKeeper.InMemory

structure Consensus where
  /-- Slots that have a block, with the execution blocks they carry. -/
  blocks : List (UInt64 × UInt64)
  validators : Validators
  config : BeaconConfig
  head : BeaconHead
  failures : List (String × String)

namespace Consensus

/-- One slot has a block, and no validator is known. -/
def withBlock (slot block : UInt64) : Consensus where
  blocks := [(slot, block)]
  validators := .empty
  config := ⟨0, 12, 32⟩
  head := ⟨slot, slot / 32, 0⟩
  failures := []

variable (b : Consensus)

/-- The call with this key fails if it is meant to. -/
def guarded {α : Type} (key : String) (result : α) : Except Failure α :=
  match b.failures.lookup key with
  | some message => .error (.text message)
  | none => .ok result

/-- The reply to a call. -/
def answer : (call : Beacon.Call) → Beacon.Reply call
  | .block slot =>
    b.guarded ("block:" ++ Numeral.decimal slot.toNat) ((b.blocks.lookup slot).map (⟨slot, ·⟩))
  | .validators keys _ => b.guarded "validators" (b.validators.filter fun k _ => keys.contains k)
  | .head => b.guarded "head" b.head
  | .config => b.guarded "config" b.config

end Consensus
end PoolKeeper.InMemory
