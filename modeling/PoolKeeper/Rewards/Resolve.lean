/-
Finding the event of an interval: in the current rewards pool, then in those
that it has replaced.
-/
import PoolKeeper.Chain.Basic
import PoolKeeper.Network

namespace PoolKeeper

/-- Why an interval's event cannot be had. -/
inductive EventFault where
  | notFound (interval : UInt64)
  | read (interval : UInt64) (source : Failure)
  deriving DecidableEq

def EventFault.failure : EventFault → Failure
  | .notFound interval =>
    .text ("rewards event for interval " ++ Numeral.decimal interval.toNat ++ " not found")
  | .read interval source =>
    .because ("error looking up the rewards event for interval " ++ Numeral.decimal interval.toNat)
      source

namespace RewardsEvent

/-- An event that no pool has, because it was recorded in another form. -/
structure Prehistoric where
  network : Network
  event : RewardsEvent

/-- The events that are known without asking. There are none at present. -/
def prehistory : List Prehistoric := []

/-- The name of the contract that closes intervals. -/
def poolContract : String := "rocketRewardsPool"

def prehistoric? (table : List Prehistoric) (network : Network) (interval : UInt64) :
    Option RewardsEvent :=
  (table.find? fun p => p.network = network ∧ p.event.index = interval).map (·.event)

/-- The event that the first of several pools has. -/
def firstOf (interval : UInt64) : List Address → Attempt Chain EventFault RewardsEvent
  | [] => throw (.notFound interval)
  | pool :: pools => do
    match ← (Chain.rewardsEvent pool interval).mapError (.read interval) with
    | some event => pure event
    | none => firstOf interval pools

/-- The address of the current rewards pool. -/
def currentPool (interval : UInt64) (block : Option UInt64) : Attempt Chain EventFault Address := do
  match ← (Chain.readWords [.contractAddress poolContract] block).mapError (.read interval) with
  | word :: _ => pure (Address.ofWord word)
  | [] => throw (.read interval (.text ("no address returned for " ++ poolContract)))

/-- The event of an interval, from a table of events known beforehand or from
the pools. A pool at the zero address is none. -/
def resolveIn (table : List Prehistoric) (network : Network) (previousPools : List Address)
    (interval : UInt64) (block : Option UInt64) : Attempt Chain EventFault RewardsEvent :=
  match prehistoric? table network interval with
  | some event => pure event
  | none => do
    let current ← currentPool interval block
    firstOf interval ((current :: previousPools).filter (· ≠ .zero))

/-- The event of an interval. -/
def resolve (network : Network) (previousPools : List Address) (interval : UInt64)
    (block : Option UInt64) : Attempt Chain EventFault RewardsEvent :=
  resolveIn prehistory network previousPools interval block

end RewardsEvent
end PoolKeeper
