/-
Blocks as an execution client shows them, and the headers taken from them.
-/
import PoolKeeper.Chain.Headers
import PoolKeeper.Rpc.Endpoint

namespace PoolKeeper.Json.Reader

/-- A number of at most `width` bits, in one of the forms of a word. -/
def quantity {width : Nat} : Reader (BitVec width) := fun path t => do
  let w ← word path t
  if w.toNat < 2 ^ width then return w.setWidth width else throw (.misfit path)

/-- Bytes in hexadecimal text. -/
def hexBytes : Reader Bytes :=
  parsed fun s =>
    match s.toList with
    | '0' :: 'x' :: cs => Bytes.ofHexChars? cs
    | cs => Bytes.ofHexChars? cs

/-- An object, and no array of its fields. -/
def objectOnly {α : Type} (r : Reader α) : Reader α := fun path t =>
  match t with
  | .array _ _ => .error (.misfit path)
  | t => r path t

end PoolKeeper.Json.Reader

namespace PoolKeeper.Rpc

/-- A fee in wei. Sums and products of fees wrap. -/
abbrev Fee := BitVec 128

structure Block where
  header : BlockHeader
  baseFee : Option Fee

namespace Block
open Json

/-- Fields that every block has, and that are of no use here. -/
def otherFields : FieldReader Unit :=
  (fun _ _ _ _ _ => ()) <$> hash "parentHash" <*> hash "sha3Uncles" <*> hash "stateRoot"
      <*> hash "transactionsRoot" <*> hash "receiptsRoot"
    |> also (field "miner" (.fixedBytes : Reader Address))
    |> also (field "logsBloom" (.fixedBytes : Reader (FixedBytes 256)))
    |> also (field "difficulty" .word)
    |> also (field "gasLimit" (.quantity : Reader (BitVec 128)))
    |> also (field "gasUsed" (.quantity : Reader (BitVec 128)))
    |> also (field "extraData" .hexBytes)
where
  hash (name : String) : FieldReader Hash := field name .fixedBytes
  also {α : Type} (r : FieldReader α) (rs : FieldReader Unit) : FieldReader Unit :=
    (fun _ _ => ()) <$> rs <*> r

def reader : Reader Block :=
  .objectOnly <| record ((fun number timestamp hash baseFee _ =>
      Block.mk ⟨.ofBitVec number, .ofBitVec timestamp, hash⟩ baseFee)
    <$> field "number" .quantity
    <*> field "timestamp" .quantity
    <*> field "hash" .fixedBytes
    <*> fieldOr "baseFeePerGas" none (.optional .quantity)
    <*> otherFields)

end Block

/-- Reads a block, or nothing if there is none. -/
def block? (b : Backoff) (tag : BlockTag) : Attempt Endpoint Fault (Option Block) :=
  ask b "eth_getBlockByNumber" [tag.json, .bool false] (.optional Block.reader)

/-- How a message names a block that does not exist. -/
def BlockTag.named : BlockTag → String
  | .number n => "Number(Number(" ++ Numeral.decimal n.toNat ++ "))"
  | .latest => "Number(Latest)"

/-- What a message says could not be got. -/
def BlockTag.purpose : BlockTag → String
  | .number n => "error getting execution block " ++ Numeral.decimal n.toNat
  | .latest => "error getting latest execution block"

/-- Reads the header of a block. -/
def header (b : Backoff) (tag : BlockTag) : Attempt Endpoint Failure BlockHeader :=
  .mapError (.because tag.purpose) do
    match ← Attempt.mapError (.first ∘ .rpc) (block? b tag) with
    | some block => return block.header
    | none => throw (.text ("block " ++ tag.named ++ " does not exist"))

/-- Answers a call for a header. -/
def headers (b : Backoff) (call : Headers.Call) : Program Endpoint (Headers.Reply call) :=
  match call with
  | .byNumber n => (header b (.number n)).outcome
  | .latest => (header b .latest).outcome

end PoolKeeper.Rpc
