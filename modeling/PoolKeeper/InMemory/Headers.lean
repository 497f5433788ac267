/-
The headers of an execution chain held in memory.
-/
import PoolKeeper.Chain.Headers
import PoolKeeper.Hash.Keccak

namespace PoolKeeper.InMemory

/-- The times of the blocks: listed, or a fixed step apart up to the head. -/
inductive BlockTimes where
  | listed (timestamps : Array UInt64)
  | regular (genesis step head : UInt64)

structure HeaderChain where
  times : BlockTimes
  failures : List (String × String)

namespace HeaderChain
variable (c : HeaderChain)

def head? : Option UInt64 :=
  match c.times with
  | .listed ts => if ts.isEmpty then none else some (UInt64.ofNat (ts.size - 1))
  | .regular _ _ head => some head

def time? (number : UInt64) : Option UInt64 :=
  match c.times with
  | .listed ts => ts[number.toNat]?
  | .regular genesis step head => if number ≤ head then some (genesis + step * number) else none

/-- The header of a block. A block's hash is that of its number. -/
def header (number : UInt64) : Except Failure BlockHeader :=
  match c.time? number with
  | some timestamp => .ok ⟨number, timestamp, keccak256 (Bytes.bigEndian 8 number.toNat)⟩
  | none => .error (.text ("block " ++ Numeral.decimal number.toNat ++ " does not exist"))

/-- The reply to a call. -/
def answer (call : Headers.Call) : Headers.Reply call :=
  let guarded (key : String) (result : Except Failure BlockHeader) :=
    match c.failures.lookup key with
    | some message => .error (.text message)
    | none => result
  match call with
  | .byNumber number => guarded (Numeral.decimal number.toNat) (c.header number)
  | .latest =>
    guarded "latest" <|
      match c.head? with
      | some head => c.header head
      | none => .error (.text "empty chain")

end HeaderChain
end PoolKeeper.InMemory
