/-
Compressed blocks: a section of literals, and a section of sequences that say
how many literals to copy, and what to repeat from earlier output after them.
-/
import PoolKeeper.Zstd.Entropy

namespace PoolKeeper.Zstd

/-- What blocks of a frame hand on to each other: tables that a later block may
use again, and the last three distances. -/
structure History where
  huffman : Option HuffmanTable
  literalLengths : Option FseTable
  offsets : Option FseTable
  matchLengths : Option FseTable
  recent : Nat × Nat × Nat

def History.start : History := ⟨none, none, none, none, 1, 4, 8⟩

/-- Bytes that a block may stand for at most. -/
def maxBlockSize : Nat := 131072

/-- Literals, the position behind their section, and the Huffman table in use. -/
structure Literals where
  bytes : ByteArray
  next : Nat
  huffman : Option HuffmanTable

/-- `n` copies of a byte after what is there. -/
def pushCopies (out : ByteArray) (b : UInt8) : Nat → ByteArray
  | 0 => out
  | n + 1 => pushCopies (out.push b) b n

/-- The bytes from `lo` on for `n` bytes after what is there. -/
def pushRange (out : ByteArray) (data : ByteArray) (lo : Nat) : Nat → ByteArray
  | 0 => out
  | n + 1 => pushRange (out.push (byteAt data lo)) data (lo + 1) n

/-- `n` bytes from `distance` back, which may be bytes that are being copied. -/
def pushMatch (out : ByteArray) (distance : Nat) : Nat → ByteArray
  | 0 => out
  | n + 1 => pushMatch (out.push (byteAt out (out.size - distance))) distance n

/-- Literals in four streams, whose sizes stand in front of them. -/
def readFourStreams (t : HuffmanTable) (data : ByteArray) (lo hi size : Nat) :
    Except Fault ByteArray := do
  if hi < lo + 6 then throw .corrupted
  let part := (size + 3) / 4
  let a := lo + 6
  let b := a + littleEndian data lo 2
  let c := b + littleEndian data (lo + 2) 2
  let d := c + littleEndian data (lo + 4) 2
  if hi < d ∨ size < 3 * part then throw .corrupted
  let out ← t.decode part (← BitStream.ofRange data a b) .empty
  let out ← t.decode part (← BitStream.ofRange data b c) out
  let out ← t.decode part (← BitStream.ofRange data c d) out
  t.decode (size - 3 * part) (← BitStream.ofRange data d hi) out

/-- The literals section at `lo` of a block that ends at `hi`. -/
def readLiterals (old : Option HuffmanTable) (data : ByteArray) (lo hi : Nat) :
    Except Fault Literals := do
  if hi ≤ lo then throw .corrupted
  let b := (byteAt data lo).toNat
  let kind := b % 4
  let format := b / 4 % 4
  if kind < 2 then
    let (header, size) :=
      if format % 2 = 0 then (1, b / 8)
      else if format = 1 then (2, littleEndian data lo 2 / 16)
      else (3, littleEndian data lo 3 / 16)
    if maxBlockSize < size then throw .corrupted
    let first := lo + header
    if kind = 0 then
      if hi < first + size then throw .corrupted
      return ⟨pushRange .empty data first size, first + size, old⟩
    else
      if hi < first + 1 then throw .corrupted
      return ⟨pushCopies .empty (byteAt data first) size, first + 1, old⟩
  else
    let (header, width) :=
      if format < 2 then (3, 10) else if format = 2 then (4, 14) else (5, 18)
    let all := littleEndian data lo header / 16
    let size := all % 2 ^ width
    let first := lo + header
    let last := first + all / 2 ^ width
    if maxBlockSize < size ∨ hi < last then throw .corrupted
    let (table, first) ←
      if kind = 2 then HuffmanTable.read data first last
      else match old with
        | some t => pure (t, first)
        | none => throw .corrupted
    let bytes ←
      if format = 0 then table.decode size (← BitStream.ofRange data first last) .empty
      else readFourStreams table data first last size
    return ⟨bytes, last, some table⟩

/-- The least length of every literal length code, and how many bits are added. -/
def literalLengthCodes : Array (Nat × Nat) :=
  ((List.range 16).map fun n => (n, 0)).toArray ++
    #[(16, 1), (18, 1), (20, 1), (22, 1), (24, 2), (28, 2), (32, 3), (40, 3), (48, 4), (64, 6),
      (128, 7), (256, 8), (512, 9), (1024, 10), (2048, 11), (4096, 12), (8192, 13), (16384, 14),
      (32768, 15), (65536, 16)]

def matchLengthCodes : Array (Nat × Nat) :=
  ((List.range 32).map fun n => (n + 3, 0)).toArray ++
    #[(35, 1), (37, 1), (39, 1), (41, 1), (43, 2), (47, 2), (51, 3), (59, 3), (67, 4), (83, 4),
      (99, 5), (131, 7), (259, 8), (515, 9), (1027, 10), (2051, 11), (4099, 12), (8195, 13),
      (16387, 14), (32771, 15), (65539, 16)]

/-- The tables in use when a block names none. -/
def defaultLiteralLengths : FseTable :=
  .ofProbabilities 6 [4, 3, 2, 2, 2, 2, 2, 2, 2, 2, 2, 2, 2, 1, 1, 1, 2, 2, 2, 2, 2, 2, 2, 2, 2, 3,
    2, 1, 1, 1, 1, 1, -1, -1, -1, -1]

def defaultMatchLengths : FseTable :=
  .ofProbabilities 6 [1, 4, 3, 2, 2, 2, 2, 2, 2, 1, 1, 1, 1, 1, 1, 1, 1, 1, 1, 1, 1, 1, 1, 1, 1, 1,
    1, 1, 1, 1, 1, 1, 1, 1, 1, 1, 1, 1, 1, 1, 1, 1, 1, 1, 1, 1, -1, -1, -1, -1, -1, -1, -1]

def defaultOffsets : FseTable :=
  .ofProbabilities 5 [1, 1, 1, 1, 1, 1, 2, 2, 2, 1, 1, 1, 1, 1, 1, 1, 1, 1, 1, 1, 1, 1, 1, 1, -1,
    -1, -1, -1, -1]

/-- One of the three tables of a block: the default, a constant, a new one, or
the last one again. -/
def readTable (mode : Nat) (default : FseTable) (old : Option FseTable) (maxLog maxSymbol : Nat)
    (data : ByteArray) (lo hi : Nat) : Except Fault (FseTable × Nat) :=
  match mode with
  | 0 => .ok (default, lo)
  | 1 =>
    let symbol := (byteAt data lo).toNat
    if hi ≤ lo ∨ maxSymbol < symbol then .error .corrupted else .ok (.constant symbol, lo + 1)
  | 2 => FseTable.read data lo hi maxLog maxSymbol
  | _ => match old with
    | some t => .ok (t, lo)
    | none => .error .corrupted

/-- The distance that an offset value means after a number of literals, and the
recent distances after it. -/
def distanceOf (value literals : Nat) (recent : Nat × Nat × Nat) : Nat × (Nat × Nat × Nat) :=
  let (a, b, c) := recent
  if 3 < value then (value - 3, value - 3, a, b)
  else
    match value - 1 + (if literals = 0 then 1 else 0) with
    | 0 => (a, a, b, c)
    | 1 => (b, b, a, c)
    | 2 => (c, c, a, b)
    | _ => (a - 1, a - 1, a, b)

/-- The tables, states and stream that sequences are read with. -/
structure SequenceReader where
  literalLengths : FseTable
  offsets : FseTable
  matchLengths : FseTable
  stream : BitStream
  literalState : Nat
  offsetState : Nat
  matchState : Nat

/-- The output so far, literals used, and recent distances. -/
structure Progress where
  out : ByteArray
  used : Nat
  recent : Nat × Nat × Nat

/-- Reads `n` sequences and carries them out. `start` is where the frame's
output starts. -/
def runSequences (literals : ByteArray) (start : Nat) :
    (n : Nat) → SequenceReader → Progress → Except Fault (BitStream × Progress)
  | 0, r, p => .ok (r.stream, p)
  | n + 1, r, p => do
    let code := (r.offsets.cell r.offsetState).symbol
    let (extra, s) ← r.stream.take code
    let value := 2 ^ code + extra
    let (base, bits) := matchLengthCodes.getD (r.matchLengths.cell r.matchState).symbol (0, 0)
    let (extra, s) ← s.take bits
    let matchLength := base + extra
    let (base, bits) := literalLengthCodes.getD (r.literalLengths.cell r.literalState).symbol (0, 0)
    let (extra, s) ← s.take bits
    let literalLength := base + extra
    let (distance, recent) := distanceOf value literalLength p.recent
    if literals.size < p.used + literalLength then throw .corrupted
    let out := pushRange p.out literals p.used literalLength
    if distance = 0 ∨ out.size < start + distance then throw .corrupted
    let p := ⟨pushMatch out distance matchLength, p.used + literalLength, recent⟩
    if n = 0 then return (s, p)
    let (literalState, s) ← r.literalLengths.next r.literalState s
    let (matchState, s) ← r.matchLengths.next r.matchState s
    let (offsetState, s) ← r.offsets.next r.offsetState s
    runSequences literals start n { r with stream := s, literalState, matchState, offsetState } p

/-- How many sequences a block has, and the position behind that number. -/
def readSequenceCount (data : ByteArray) (lo hi : Nat) : Except Fault (Nat × Nat) :=
  let b := (byteAt data lo).toNat
  let size := if b < 128 then 1 else if b < 255 then 2 else 3
  if hi < lo + size then .error .corrupted
  else if b < 128 then .ok (b, lo + 1)
  else if b < 255 then .ok ((b - 128) * 256 + (byteAt data (lo + 1)).toNat, lo + 2)
  else .ok (littleEndian data (lo + 1) 2 + 0x7f00, lo + 3)

/-- Decompresses the block from `lo` up to `hi` onto the output. -/
def readBlock (h : History) (data : ByteArray) (lo hi start : Nat) (out : ByteArray) :
    Except Fault (History × ByteArray) := do
  let literals ← readLiterals h.huffman data lo hi
  let h := { h with huffman := literals.huffman }
  let (count, place) ← readSequenceCount data literals.next hi
  if count = 0 then
    if place ≠ hi then throw .corrupted
    return (h, pushRange out literals.bytes 0 literals.bytes.size)
  if hi ≤ place then throw .corrupted
  let modes := (byteAt data place).toNat
  if modes % 4 ≠ 0 then throw .corrupted
  let (literalLengths, place) ←
    readTable (modes / 64) defaultLiteralLengths h.literalLengths 9 35 data (place + 1) hi
  let (offsets, place) ← readTable (modes / 16 % 4) defaultOffsets h.offsets 8 31 data place hi
  let (matchLengths, place) ←
    readTable (modes / 4 % 4) defaultMatchLengths h.matchLengths 9 52 data place hi
  let s ← BitStream.ofRange data place hi
  let (literalState, s) ← literalLengths.start s
  let (offsetState, s) ← offsets.start s
  let (matchState, s) ← matchLengths.start s
  let reader := ⟨literalLengths, offsets, matchLengths, s, literalState, offsetState, matchState⟩
  let (s, p) ← runSequences literals.bytes start count reader ⟨out, 0, h.recent⟩
  if s.left ≠ 0 then throw .corrupted
  let out := pushRange p.out literals.bytes p.used (literals.bytes.size - p.used)
  return (⟨h.huffman, some literalLengths, some offsets, some matchLengths, p.recent⟩, out)

end PoolKeeper.Zstd
