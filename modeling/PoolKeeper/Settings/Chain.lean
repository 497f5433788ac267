/-
Where the two chains are reached, and how hard they may be pressed.
-/
import PoolKeeper.Http.Url
import PoolKeeper.Network
import PoolKeeper.Rpc.Retry

namespace PoolKeeper

structure ChainSettings where
  /-- The execution client, which also knows the contracts. -/
  rpcUrl : Url
  beaconUrl : Url
  network : Network
  /-- The block of the contracts, below which none is searched for. -/
  deployBlock : UInt64
  /-- How many reads may be in flight. -/
  concurrency : Nat
  backoff : Rpc.Backoff

end PoolKeeper
