/-
The consensus layer, reached through the HTTP interface of a beacon node.

The timing of the chain never changes, so it is asked for once and kept. A
resource that is not there is no failure for the block of a slot, which may be
empty; anything else has to be there. Validators are asked for in batches, and
one batch that fails is a failure of the whole.
-/
import PoolKeeper.Beacon.Basic
import PoolKeeper.Http.Basic
import PoolKeeper.Http.Status
import PoolKeeper.Pieces

namespace PoolKeeper.Beacon.Rest

open Json

/-! ## Shapes of responses -/

def blockReader : Reader BeaconBlock :=
  record (field "message" (record ((fun slot payload => BeaconBlock.mk slot (payload.getD 0))
    <$> field "slot" .quotedUInt64
    <*> field "body" (record (fieldOr "execution_payload" none
      (.optional (record (field "block_number" .quotedUInt64))))))))

/-- What a validator's own record says. -/
structure Standing where
  pubkey : Pubkey
  slashed : Bool
  activationEpoch : UInt64
  exitEpoch : UInt64

def standingReader : Reader Standing :=
  record (Standing.mk
    <$> field "pubkey" .fixedBytes
    <*> field "slashed" .bool
    <*> field "activation_epoch" .quotedUInt64
    <*> field "exit_epoch" .quotedUInt64)

def validatorReader : Reader ValidatorStatus :=
  record ((fun index balance status v =>
      ValidatorStatus.mk v.pubkey index balance v.activationEpoch v.exitEpoch v.slashed status)
    <$> field "index" .quotedUInt64
    <*> field "balance" .quotedUInt64
    <*> field "status" .string
    <*> field "validator" standingReader)

/-- The slot of the newest header. -/
def headSlotReader : Reader UInt64 :=
  record (field "header" (record (field "message" (record (field "slot" .quotedUInt64)))))

def finalizedEpochReader : Reader UInt64 :=
  record (field "finalized" (record (field "epoch" .quotedUInt64)))

/-- Seconds in a slot, and slots in an epoch. -/
def specReader : Reader (UInt64 × UInt64) :=
  record (Prod.mk
    <$> field "SECONDS_PER_SLOT" .quotedUInt64
    <*> field "SLOTS_PER_EPOCH" .quotedUInt64)

def genesisTimeReader : Reader UInt64 := record (field "genesis_time" .quotedUInt64)

/-! ## Requests -/

/-- Gets what is at a path below the base, if there is something. -/
def get? {α : Type} (base : Url) (path : String) (r : Reader α) :
    Attempt Http Failure (Option α) := do
  let url ← Attempt.ofExcept <| (base.join path).mapError fun f =>
    Failure.because ("invalid beacon path " ++ path) (.text f.message)
  let response ← (Http.request (.get url)).mapError fun f =>
    .because ("error requesting " ++ url.text) (.first (.http f))
  if response.status = 404 then return none
  if !response.isSuccess then
    throw (.text (url.text ++ " responded with status " ++ HttpStatus.text response.status))
  let bytes ← Attempt.ofExcept <| (Http.bodyOf response).mapError fun f =>
    Failure.because ("error reading response from " ++ url.text) (.first (.http f))
  let data ← Attempt.ofExcept <| ((record (field "data" r)).read bytes).mapError fun e =>
    Failure.because ("unexpected response shape from " ++ url.text) (.first (.json e))
  return some data

/-- Gets what has to be at a path. -/
def get {α : Type} (base : Url) (path : String) (r : Reader α) : Attempt Http Failure α := do
  match ← get? base path r with
  | some a => return a
  | none => throw (.text ("beacon node has no resource at " ++ path))

def block (base : Url) (slot : UInt64) : Attempt Http Failure (Option BeaconBlock) :=
  get? base ("eth/v2/beacon/blocks/" ++ Numeral.decimal slot.toNat) blockReader

/-- The most keys in one request. -/
def batchSize : Nat := 100

def validatorsPath (slot : UInt64) (keys : List Pubkey) : String :=
  "eth/v1/beacon/states/" ++ Numeral.decimal slot.toNat ++ "/validators?id=" ++
    ",".intercalate (keys.map FixedBytes.text)

/-- The validators with the given keys, as far as they are known. -/
def validators (base : Url) (keys : List Pubkey) (slot : UInt64) :
    Attempt Http Failure Validators :=
  .mapError (.because
    ("error getting validator statuses at slot " ++ Numeral.decimal slot.toNat)) do
    let batches ← (pieces batchSize keys).mapM fun batch =>
      get base (validatorsPath slot batch) (.list validatorReader)
    return KeyMap.ofList (batches.flatten.map fun v => (v.pubkey, v))

def config (base : Url) : Attempt Http Failure BeaconConfig := do
  let (secondsPerSlot, slotsPerEpoch) ← get base "eth/v1/config/spec" specReader
  let genesisTime ← get base "eth/v1/beacon/genesis" genesisTimeReader
  return ⟨genesisTime, secondsPerSlot, slotsPerEpoch⟩

/-- The newest slot, and the epochs that go by the given timing. -/
def head (base : Url) (config : BeaconConfig) : Attempt Http Failure BeaconHead := do
  let slot ← get base "eth/v1/beacon/headers/head" headSlotReader
  let finalized ← get base "eth/v1/beacon/states/head/finality_checkpoints" finalizedEpochReader
  return ⟨slot, config.epochOf slot, finalized⟩

/-- The timing if it is known, else what the node says. -/
def knownConfig (base : Url) : Option BeaconConfig → Program Http (Except Failure BeaconConfig)
  | some c => .done (.ok c)
  | none => (config base).outcome

/-- Answers a call, and keeps the timing once it is known. -/
def answer (base : Url) (call : Beacon.Call) (known : Option BeaconConfig) :
    Program Http (Beacon.Reply call × Option BeaconConfig) :=
  match call with
  | .block slot => do return (← (block base slot).outcome, known)
  | .validators keys slot => do return (← (validators base keys slot).outcome, known)
  | .config => do
    let c ← knownConfig base known
    return (c, c.toOption)
  | .head => do
    match ← knownConfig base known with
    | .error f => return (.error f, none)
    | .ok c => return (← (head base c).outcome, some c)

end PoolKeeper.Beacon.Rest
