/-
When a minipool's bond may be reduced.

After a reduction is requested it has to wait, and then there is a window in
which it can be carried out. While gas is dear it is put off until less than
half of the window is left; from then on it is forced.
-/
import PoolKeeper.State.Minipool
import PoolKeeper.Units

namespace PoolKeeper

/-- The request for a reduction, and the protocol's window for it. -/
structure BondWindow where
  /-- The unix time of the request, zero if there was none. -/
  requestTime : UInt64
  cancelled : Bool
  /-- Seconds from the request to the window. -/
  start : UInt64
  /-- Seconds that the window lasts. -/
  length : UInt64
  deriving DecidableEq

/-- Where a minipool's reduction stands. -/
inductive BondState where
  | notEligible
  | waitingForWindow (remaining : UInt64)
  | readyToReduce (elapsed : UInt64)
  | cancelled
  deriving DecidableEq

def BondState.json : BondState → Json
  | .notEligible => .object [("state", .string "notEligible")]
  | .waitingForWindow remaining =>
    .object [("state", .string "waitingForWindow"), ("remaining", .ofUInt64 remaining)]
  | .readyToReduce elapsed =>
    .object [("state", .string "readyToReduce"), ("elapsed", .ofUInt64 elapsed)]
  | .cancelled => .object [("state", .string "cancelled")]

/-- What is to be done about a reduction that is ready. -/
inductive GasDecision where
  | submit
  /-- Gas is dear, but less than half of the window is left. -/
  | force
  | defer (untilForced : UInt64)
  deriving DecidableEq

namespace BondWindow
variable (w : BondWindow)

/-- Seconds from the request to the end of the window. -/
def finish : UInt64 := UInt64Sat.add w.start w.length

/-- Where a minipool stands at a unix time. -/
def classify (m : MinipoolDetails) (now : UInt64) : BondState :=
  let elapsed := UInt64Sat.sub now w.requestTime
  if w.requestTime = 0 then .notEligible
  else if w.cancelled then .cancelled
  else if m.nodeDepositBalance ≠ reducibleBond ∨ m.status ≠ .staking ∨ w.finish ≤ elapsed then
    .notEligible
  else if w.start < elapsed then .readyToReduce elapsed
  else .waitingForWindow (w.start - elapsed)

/-- Whether a reduction is sent at the current fee cap. Only a cap below the
threshold is cheap. -/
def decide (elapsed : UInt64) (maxFee threshold : Word) : GasDecision :=
  let remaining := UInt64Sat.sub w.finish elapsed
  let half := w.length / 2
  if maxFee < threshold then .submit
  else if remaining < half then .force
  else .defer (remaining - half)

end BondWindow
end PoolKeeper
