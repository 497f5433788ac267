import PoolKeeper.FanOut.Clock
import PoolKeeper.InMemory.Beacon
import PoolKeeper.InMemory.Chain
import PoolKeeper.InMemory.Disk
import PoolKeeper.InMemory.Headers
import PoolKeeper.Main
import PoolKeeper.Proofs.KeyMap
import PoolKeeper.Proofs.Collision
import PoolKeeper.Proofs.Rewards.Paths
import PoolKeeper.Proofs.Rewards.Binding
import PoolKeeper.Proofs.Surroundings
import PoolKeeper.Proofs.FileTree
import PoolKeeper.Proofs.Rewards.Store
import PoolKeeper.Proofs.Rewards.Download
import PoolKeeper.Proofs.Rewards.Interval
import PoolKeeper.Proofs.FanOut
import PoolKeeper.Proofs.FanOut.Clock
import PoolKeeper.Proofs.FanOut.Ordered
import PoolKeeper.Proofs.Transcript
import PoolKeeper.Proofs.State.Course
import PoolKeeper.Proofs.State.OneBlock
import PoolKeeper.Proofs.State.AllOrNothing
import PoolKeeper.Proofs.Positions
import PoolKeeper.Proofs.State.Coherence
import PoolKeeper.Proofs.State.Pages
import PoolKeeper.Proofs.State.Settings
import PoolKeeper.Proofs.State.Faithful
import PoolKeeper.Proofs.State.Fields
import PoolKeeper.Proofs.Locate.Block
import PoolKeeper.Proofs.Locate.Slot
import PoolKeeper.Proofs.Content.Varint
import PoolKeeper.Proofs.Content.Binding
import PoolKeeper.Proofs.Content.Base32
import PoolKeeper.Proofs.Content.Spelling
import PoolKeeper.Proofs.Content.Message
import PoolKeeper.Proofs.Content.Block
import PoolKeeper.Proofs.Content.Graph
import PoolKeeper.Proofs.Bond.Window
import PoolKeeper.Proofs.Bond.Visit
import PoolKeeper.Proofs.Bond.Submissions
import PoolKeeper.Proofs.Bond.Deferral
import PoolKeeper.Proofs.Bond.Isolation
import PoolKeeper.Proofs.Bond.Delivery
import PoolKeeper.Proofs.Amounts
import PoolKeeper.Proofs.Stake.Collateral
import PoolKeeper.Proofs.Stake.Participation
import PoolKeeper.Proofs.Stake.Locality
import PoolKeeper.Proofs.Rewards.Payout
import PoolKeeper.Proofs.Rewards.Collateral
import PoolKeeper.Proofs.Rewards.Apportion
import PoolKeeper.Proofs.Json.Tokens
import PoolKeeper.Proofs.Json.Grammar
import PoolKeeper.Proofs.Json.Read
import PoolKeeper.Proofs.Json.Lacking
import PoolKeeper.Proofs.Json.Rearranged
import PoolKeeper.Proofs.Rewards.Members
import PoolKeeper.Proofs.Rewards.RoundTrip
import PoolKeeper.Proofs.Rewards.Republished
import PoolKeeper.Proofs.Json.Quoted
import PoolKeeper.Proofs.Wire
import PoolKeeper.Proofs.Rewards.Credits
import PoolKeeper.Proofs.Claims
import PoolKeeper.Proofs.Rpc.Retry
import PoolKeeper.Proofs.Rpc.Backoff
import PoolKeeper.Proofs.Rpc.Endpoint
import PoolKeeper.Proofs.Rpc.Block
import PoolKeeper.Proofs.Chain.HeaderCache
import PoolKeeper.Proofs.Rewards.Acceptance
import PoolKeeper.Proofs.Rewards.Publishing
import PoolKeeper.Proofs.Rewards.Resolve
import PoolKeeper.Proofs.Rewards.Verdict
import PoolKeeper.Proofs.Unreliable
import PoolKeeper.Proofs.Rewards.History
import PoolKeeper.Proofs.Http.Join
import PoolKeeper.Proofs.Beacon.Response
import PoolKeeper.Proofs.Beacon.Batches
