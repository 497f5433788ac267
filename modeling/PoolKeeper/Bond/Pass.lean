/-
One pass over the minipools of a node, reducing the bonds that are due.

What fails for one minipool does not concern the others. The fee cap is asked
for at most once in a pass, when the first reduction is ready.
-/
import PoolKeeper.Bond.Window
import PoolKeeper.Chain.Basic
import PoolKeeper.Settings.Gas
import PoolKeeper.State.Snapshot

namespace PoolKeeper

inductive BondOutcome where
  | submitted (tx : Hash) (forced : Bool)
  | deferred (reason : String) (untilForced : UInt64)
  | notYetEligible (remaining : UInt64)
  | failed (reason : String)
  deriving DecidableEq

namespace BondOutcome

def members : BondOutcome → List (String × Json)
  | submitted tx forced =>
    [("outcome", .string "submitted"), ("tx", tx.json), ("forced", .bool forced)]
  | deferred reason untilForced =>
    [("outcome", .string "deferred"), ("reason", .string reason),
      ("until_forced", .ofUInt64 untilForced)]
  | notYetEligible remaining =>
    [("outcome", .string "notYetEligible"), ("remaining", .ofUInt64 remaining)]
  | failed reason => [("outcome", .string "failed"), ("reason", .string reason)]

end BondOutcome

structure MinipoolOutcome where
  minipool : Address
  outcome : BondOutcome
  deriving DecidableEq

def MinipoolOutcome.json (o : MinipoolOutcome) : Json :=
  .object (("minipool", o.minipool.json) :: o.outcome.members)

namespace BondPass

/-- The fee cap of the pass, once it is known. -/
abbrev FeeCap := Option Word

/-- Reads when a minipool's reduction was requested. -/
def readWindow (s : Snapshot) (minipool : Address) : Attempt Chain Failure BondWindow :=
  (do
    let words ← Chain.readWords [.reduceBondTime minipool, .reduceBondCancelled minipool]
      (some s.parts.elBlock)
    match words with
    | [time, cancelled] =>
      match time.toUInt64? with
      | some requestTime =>
        return ⟨requestTime, cancelled != 0, s.parts.network.bondReductionWindowStart,
          s.parts.network.bondReductionWindowLength⟩
      | none => throw (.text ("reduce bond time " ++ time.decimal ++ " out of range"))
    | words => throw (.text ("expected 2 values, got " ++ Numeral.decimal words.length))
  : Attempt Chain Failure BondWindow).mapError
    (.because ("error reading the bond reduction state of minipool " ++ minipool.checksum))

/-- The cap known so far, the one that is set, or else the suggested one. -/
def feeCap (gas : GasSettings) (known : FeeCap) : Attempt Chain Failure Word :=
  match known.or gas.maxFee with
  | some fee => pure fee
  | none => Chain.suggestedFeeCap.mapError (.because "error getting the max fee")

/-- Why a reduction is put off. -/
def dearGas (fee threshold : Word) : String :=
  "max fee of " ++ Numeral.decimal (weiToGwei fee).toNat ++
    " gwei is not below the threshold of " ++ Numeral.decimal (weiToGwei threshold).toNat ++ " gwei"

/-- Sends a reduction, and says what came of it. -/
def submit (gas : GasSettings) (minipool : Address) (fee : Word) (info : GasInfo) (forced : Bool) :
    Attempt Chain Failure BondOutcome := do
  let options := ⟨fee, gas.priorityFee, gas.gasLimit.getD info.safeGasLimit⟩
  let tx ← (Chain.sendReduction minipool options).mapError
    (.because ("error submitting the bond reduction of minipool " ++ minipool.checksum))
  return .submitted tx forced

/-- A reduction that is ready: the fee cap after it, and what came of it. -/
def reduce (gas : GasSettings) (w : BondWindow) (minipool : Address) (elapsed : UInt64)
    (known : FeeCap) : Program Chain (FeeCap × Except Failure BondOutcome) := do
  let estimated ← ((Chain.estimateReduceBond minipool).mapError
    (.because ("could not estimate the gas required to reduce the bond of minipool " ++
      minipool.checksum))).outcome
  match estimated with
  | .error e => return (known, .error e)
  | .ok info =>
    match ← (feeCap gas known).outcome with
    | .error e => return (known, .error e)
    | .ok fee =>
      let result ← match w.decide elapsed fee gas.threshold with
        | .submit => (submit gas minipool fee info false).outcome
        | .force => (submit gas minipool fee info true).outcome
        | .defer untilForced =>
          pure (.ok (.deferred (dearGas fee gas.threshold) untilForced))
      return (some fee, result)

/-- One minipool: the fee cap after it, and what came of it, unless it has no
reduction pending. -/
def process (s : Snapshot) (gas : GasSettings) (now : UInt64) (m : MinipoolDetails)
    (known : FeeCap) : Program Chain (FeeCap × Option BondOutcome) := do
  let failed (e : Failure) := BondOutcome.failed e.line
  match ← (readWindow s m.address).outcome with
  | .error e => return (known, some (failed e))
  | .ok w =>
    match w.classify m now with
    | .readyToReduce elapsed =>
      let (known, result) ← reduce gas w m.address elapsed known
      match result with
      | .ok o => return (known, some o)
      | .error e => return (known, some (failed e))
    | .waitingForWindow remaining => return (known, some (.notYetEligible remaining))
    | .notEligible | .cancelled => return (known, none)

/-- Minipools one after the other. -/
def processAll (s : Snapshot) (gas : GasSettings) (now : UInt64) :
    List MinipoolDetails → FeeCap → Program Chain (List MinipoolOutcome)
  | [], _ => return []
  | m :: ms, known => do
    let (known, outcome) ← process s gas now m known
    let rest ← processAll s gas now ms known
    return (outcome.map fun o => ⟨m.address, o⟩).toList ++ rest

/-- A pass over the minipools of a node at a unix time. Before Atlas bonds
cannot be reduced. -/
def run (s : Snapshot) (gas : GasSettings) (node : Address) (now : UInt64) :
    Program Chain (List MinipoolOutcome) :=
  if s.parts.isAtlasDeployed then processAll s gas now (s.minipoolsOf node) none else return []

end BondPass
end PoolKeeper
