/-
The graph that a file is published as, and its root identifier.

The bytes are cut into chunks, each a raw leaf. Nodes link to up to a fixed
number of children, level by level, until one root is left. Every node records
how many bytes of the file lie below each child, and how large each child is
with all that lies below it. A published file is the only entry of a directory,
under its name.
-/
import PoolKeeper.Content.Cid
import PoolKeeper.Hash.Sha256
import PoolKeeper.Pieces

namespace PoolKeeper.Dag

/-- Bytes in a leaf. -/
def chunkSize : Nat := 262144

/-- Links of a node at most. -/
def maxLinks : Nat := 174

/-- A numeric field of a protobuf message. -/
def numberField (field n : Nat) : Bytes := Varint.encode (field * 8) ++ Varint.encode n

/-- A bytes field of a protobuf message. -/
def bytesField (field : Nat) (bs : Bytes) : Bytes :=
  Varint.encode (field * 8 + 2) ++ (Varint.encode bs.length ++ bs)

/-- The graph over a file. -/
inductive Node where
  | leaf (chunk : Bytes)
  | inner (children : List Node)

/-- What a parent needs to know of a child. -/
structure Link where
  cid : Cid
  /-- The size of the encoded child and of everything below it. -/
  totalSize : Nat
  /-- Bytes of the file below the child. -/
  fileSize : Nat

/-- A size summed over links. -/
def sumOf (size : Link → Nat) (links : List Link) : Nat :=
  links.foldr (fun l total => size l + total) 0

/-- One link of an encoded node. -/
def linkBytes (name : Bytes) (l : Link) : Bytes :=
  bytesField 1 l.cid.toBytes ++ (bytesField 2 name ++ numberField 3 l.totalSize)

/-- The sizes that a node over part of a file records: its own and those of its children. -/
def fileMetadata (links : List Link) : Bytes :=
  numberField 1 2 ++ (numberField 3 (sumOf Link.fileSize links) ++
    links.flatMap fun l => numberField 4 l.fileSize)

/-- An encoded node: its links, then its metadata. -/
def nodeBytes (links : List Link) : Bytes :=
  (links.flatMap fun l => bytesField 2 (linkBytes [] l)) ++ bytesField 1 (fileMetadata links)

/-- An encoded directory with one entry. -/
def directoryBytes (name : Bytes) (l : Link) : Bytes :=
  bytesField 2 (linkBytes name l) ++ bytesField 1 (numberField 1 1)

variable (digest : Bytes → Hash)

mutual
/-- The link to a node. -/
def Node.link : Node → Link
  | .leaf chunk => ⟨⟨.raw, digest chunk⟩, chunk.length, chunk.length⟩
  | .inner children =>
    let links := linksOf children
    let bytes := nodeBytes links
    ⟨⟨.graphNode, digest bytes⟩, bytes.length + sumOf Link.totalSize links,
      sumOf Link.fileSize links⟩

def linksOf : List Node → List Link
  | [] => []
  | n :: ns => n.link :: linksOf ns
end

/-- The raw leaves of a file. An empty file has one empty leaf. -/
def leavesOf (data : Bytes) : List Node :=
  if data.isEmpty then [.leaf []] else (pieces chunkSize data).map .leaf

/-- Parents over parents, until one node is left. -/
def raise (level : List Node) : Node :=
  match level with
  | [] => .leaf []
  | [n] => n
  | a :: b :: rest => raise ((pieces maxLinks (a :: b :: rest)).map .inner)
termination_by level.length
decreasing_by
  have := length_pieces_le (n := maxLinks) (by decide) (a :: b :: rest)
  simp only [List.length_map, List.length_cons] at *
  omega

/-- The graph over a file. -/
def ofBytes (data : Bytes) : Node := raise (leavesOf data)

end Dag

namespace Cid

/-- The identifier of a file by its bytes alone. -/
def ofBytes (data : Bytes) : Cid := ((Dag.ofBytes data).link sha256).cid

/-- The identifier of a directory whose only entry is a file with the given name. -/
def ofFile (data : Bytes) (name : String) : Cid :=
  ⟨.graphNode, sha256 (Dag.directoryBytes (Bytes.ofText name) ((Dag.ofBytes data).link sha256))⟩

end Cid
end PoolKeeper
