/-
The commands, their options, and reading a whole command line.
-/
import PoolKeeper.CommandLine.Parse
import PoolKeeper.Settings.Chain
import PoolKeeper.Settings.Gas
import PoolKeeper.Settings.Rewards

namespace PoolKeeper

inductive Command where
  /-- Shows the state of the network at a slot, the newest if none is named. -/
  | state (slot : Option UInt64)
  /-- Shows the effective stake of every node. -/
  | effectiveStake (slot : Option UInt64)
  /-- Shows which intervals a node has claimed, and which it has not. -/
  | claimStatus (node : Address)
  /-- Shows what is known of an interval's rewards file, and a node's part in it. -/
  | interval (node : Address) (interval : UInt64)
  /-- Downloads and checks the rewards file of an interval. -/
  | download (interval : UInt64)
  /-- Goes through a node's minipools once, reducing bonds. -/
  | reduceBonds (node : Address) (slot : Option UInt64)
  /-- Shows the last block at or before a unix time. -/
  | blockForTime (time : UInt64)
  /-- Shows the first slot of an interval. -/
  | startSlot (interval : UInt64)
  /-- Shows the rewards of the running interval, were it to end now. -/
  | previewRewards (slot : Option UInt64)
  deriving DecidableEq

structure Settings where
  chain : ChainSettings
  rewards : RewardsSettings
  gas : GasOptions

/-- A command, and the settings to run it with. -/
structure Invocation where
  settings : Settings
  command : Command

namespace CommandLine

open Options

def chainOptions : Options ChainSettings :=
  (fun rpcUrl beaconUrl network deployBlock concurrency initial maxRetries =>
      ChainSettings.mk rpcUrl beaconUrl network deployBlock concurrency ⟨initial, maxRetries⟩)
    <$> required "rpc-url" (some 'u') (some "RP_NODE_RPC_URL") .url
    <*> required "beacon-url" (some 'b') (some "RP_NODE_BEACON_URL") .url
    <*> withDefault "network" (some 'n') (some "RP_NODE_NETWORK") .mainnet .network
    <*> withDefault "deploy-block" none (some "RP_NODE_DEPLOY_BLOCK") 0 .uint64
    <*> withDefault "concurrency" (some 'c') (some "RP_NODE_CONCURRENCY") 6 (.below (2 ^ 64))
    <*> withDefault "backoff" none (some "RP_NODE_BACKOFF") 500 (.below (2 ^ 64))
    <*> withDefault "max-retries" none (some "RP_NODE_MAX_RETRIES") 3 (.below (2 ^ 32))

def rewardsOptions : Options RewardsSettings :=
  RewardsSettings.mk
    <$> optional "data-dir" (some 'd') (some "RP_NODE_DATA_DIR") .path
    <*> list "previous-rewards-pools" (some "RP_NODE_PREVIOUS_REWARDS_POOLS") .address
    <*> withDefault "primary-mirror" none (some "RP_NODE_PRIMARY_MIRROR")
      RewardsSettings.defaultPrimaryMirror .text
    <*> withDefault "secondary-mirror" none (some "RP_NODE_SECONDARY_MIRROR")
      RewardsSettings.defaultSecondaryMirror .text
    <*> withDefault "fallback-mirror" none (some "RP_NODE_FALLBACK_MIRROR")
      RewardsSettings.defaultFallbackMirror .text
    <*> flag "scale-by-participation" (some "RP_NODE_SCALE_BY_PARTICIPATION")

def gasOptions : Options GasOptions :=
  GasOptions.mk
    <$> withDefault "gas-threshold" none (some "RP_NODE_GAS_THRESHOLD") 150.0 .float
    <*> withDefault "max-fee" none (some "RP_NODE_MAX_FEE") 0.0 .float
    <*> withDefault "priority-fee" none (some "RP_NODE_PRIORITY_FEE") 0.0 .float
    <*> withDefault "gas-limit" none (some "RP_NODE_GAS_LIMIT") 0 .uint64

def settingsOptions : Options Settings :=
  Settings.mk <$> chainOptions <*> rewardsOptions <*> gasOptions

def slotOption : Options (Option UInt64) := optional "slot" (some 's') (some "RP_NODE_SLOT") .uint64

def nodeOption : Options Address := required "node" none (some "RP_NODE_ADDRESS") .address

def intervalOption (r : ValueReader UInt64) : Options UInt64 :=
  required "interval" (some 'i') none r

/-- The commands by their names. -/
def commands : List (String × Options Command) := [
  ("state", .state <$> slotOption),
  ("effective-stake", .effectiveStake <$> slotOption),
  ("claim-status", .claimStatus <$> nodeOption),
  ("interval", .interval <$> nodeOption <*> intervalOption .uint64),
  ("download", .download <$> intervalOption .uint64),
  ("reduce-bonds", .reduceBonds <$> nodeOption <*> slotOption),
  ("block-for-time", .blockForTime <$> required "time" (some 't') none .uint64),
  ("start-slot", .startSlot <$> intervalOption .positive),
  ("preview-rewards", .previewRewards <$> slotOption)]

/-- The settings, and the names of the commands. -/
def topLevel : Level := ⟨settingsOptions.specs, "help" :: commands.map (·.1)⟩

/-- Reads what stands behind the name of a command. -/
def command (environment : String → Option String) (options : Options Command)
    (rest : List String) : Except UsageError Command := do
  let level : Level := ⟨options.specs, []⟩
  let (progress, _) ← words level .start rest
  options.read (← complete level environment progress)

/-- Reads a command line, without the name of the program. Whatever is wrong
with the command counts before what is wrong with the settings. -/
def parse (environment : String → Option String) (arguments : List String) :
    Except UsageError Invocation := do
  let (progress, behind) ← words topLevel .start arguments
  let found : Option Command ← match behind with
    | none => pure none
    | some (name, rest) =>
      match commands.lookup name with
      | none => throw .unknownCommand
      | some options => some <$> command environment options rest
  let given ← complete topLevel environment progress
  match found with
  | none => throw (if given.isEmpty then .nothing else .missingCommand)
  | some command => return ⟨← settingsOptions.read given, command⟩

end CommandLine
end PoolKeeper
