/-
Decoding tables: finite-state tables for numbers of unequal probability, and
Huffman tables for literals.
-/
import PoolKeeper.Zstd.Basic

namespace PoolKeeper.Zstd

/-- A state of a finite-state table: its symbol, and the next state as a base
and a number of bits to be added to it. -/
structure FseCell where
  symbol : Nat
  bits : Nat
  base : Nat

/-- A finite-state table with `2 ^ log` states. -/
structure FseTable where
  log : Nat
  cells : Array FseCell

namespace FseTable

def cell (t : FseTable) (state : Nat) : FseCell := t.cells.getD state ⟨0, 0, 0⟩

/-- The table that always gives one symbol. -/
def constant (symbol : Nat) : FseTable := ⟨0, #[⟨symbol, 0, 0⟩]⟩

/-- The symbol of every state. Symbols of probability below one (`-1`) stand at
the top, one state each; the others are spread over the rest in a fixed step. -/
def spread (log : Nat) (probabilities : List Int) : Array Nat :=
  let size := 2 ^ log
  let numbered := (List.range probabilities.length).zip probabilities
  let rare := (numbered.filter (·.2 = -1)).map (·.1)
  let high := size - rare.length
  let table := (rare.zip (List.range rare.length)).foldl
    (fun t (s, i) => t.setIfInBounds (size - 1 - i) s) (Array.replicate size 0)
  let step := size / 2 + size / 8 + 3
  let places := ((List.range size).map fun k => k * step % size).filter (· < high)
  let symbols := numbered.flatMap fun (s, p) => List.replicate p.toNat s
  (places.zip symbols).foldl (fun t (i, s) => t.setIfInBounds i s) table

/-- The table for given probabilities, which sum up to `2 ^ log` when those
below one are counted as one. -/
def ofProbabilities (log : Nat) (probabilities : List Int) : FseTable :=
  let symbols := spread log probabilities
  let counts := (probabilities.map fun p => if p = -1 then 1 else p.toNat).toArray
  let (cells, _) := symbols.foldl
    (fun (cells, counts) s =>
      let n : Nat := counts.getD s 1
      let bits := log - n.log2
      (cells.push ⟨s, bits, n * 2 ^ bits - 2 ^ log⟩, counts.setIfInBounds s (n + 1)))
    ((#[] : Array FseCell), counts)
  ⟨log, cells⟩

/-- Zeros that follow a probability of zero: two bits at a time, three meaning
that more follow. Gives how many and the bit behind them. -/
def readZeros (data : ByteArray) : (fuel : Nat) → (bit : Nat) → Nat × Nat
  | 0, bit => (0, bit)
  | fuel + 1, bit =>
    let n := bitsAt data bit 2
    if n = 3 then
      let (more, bit) := readZeros data fuel (bit + 2)
      (3 + more, bit)
    else (n, bit + 2)

/-- Probabilities, newest first, until `remaining` is used up. -/
def readProbabilities (data : ByteArray) :
    (fuel : Nat) → (bit : Nat) → (remaining : Nat) → List Int → Except Fault (List Int × Nat)
  | 0, _, _, _ => .error .corrupted
  | fuel + 1, bit, remaining, acc =>
    if remaining = 0 then .ok (acc, bit)
    else
      let width := (remaining + 1).log2 + 1
      let value := bitsAt data bit width
      let low := value % 2 ^ (width - 1)
      let threshold := 2 ^ width - 1 - (remaining + 1)
      let (value, bit) :=
        if low < threshold then (low, bit + width - 1)
        else if 2 ^ (width - 1) ≤ value then (value - threshold, bit + width)
        else (value, bit + width)
      let p : Int := (value : Int) - 1
      if p.natAbs ≤ remaining then
        if p = 0 then
          let (zeros, bit) := readZeros data 256 bit
          readProbabilities data fuel bit remaining (List.replicate zeros 0 ++ p :: acc)
        else readProbabilities data fuel bit (remaining - p.natAbs) (p :: acc)
      else .error .corrupted

/-- A table described at `lo`, within `hi`, and the position behind it. -/
def read (data : ByteArray) (lo hi maxLog maxSymbol : Nat) : Except Fault (FseTable × Nat) := do
  let log := bitsAt data (8 * lo) 4 + 5
  if maxLog < log then throw .corrupted
  let (probabilities, bit) ← readProbabilities data 512 (8 * lo + 4) (2 ^ log) []
  let next := (bit + 7) / 8
  if hi < next ∨ maxSymbol + 1 < probabilities.length then throw .corrupted
  return (ofProbabilities log probabilities.reverse, next)

/-- The state that a stream starts with. -/
def start (t : FseTable) (s : BitStream) : Except Fault (Nat × BitStream) := s.take t.log

/-- The state after a state. -/
def next (t : FseTable) (state : Nat) (s : BitStream) : Except Fault (Nat × BitStream) := do
  let c := t.cell state
  let (n, s) ← s.take c.bits
  return (c.base + n, s)

end FseTable

/-- A Huffman table: for the next `log` bits of a stream, the symbol and how
many of these bits it takes. -/
structure HuffmanTable where
  log : Nat
  cells : Array (UInt8 × Nat)

namespace HuffmanTable

/-- The table for the weights of all symbols but the last, whose weight fills
what is left of the code space. Longer codes stand first. -/
def ofWeights (weights : List Nat) : Except Fault HuffmanTable :=
  let used := weights.foldr (fun w used => used + if w = 0 then 0 else 2 ^ (w - 1)) 0
  if used = 0 then .error .corrupted
  else
    let log := used.log2 + 1
    let rest := 2 ^ log - used
    if 11 < log ∨ rest ≠ 2 ^ rest.log2 ∨ weights.any (log < ·) then .error .corrupted
    else
      let weights := weights ++ [rest.log2 + 1]
      let numbered := (List.range weights.length).zip weights
      let cells := (List.range log).foldl
        (fun cells i => numbered.foldl
          (fun cells (s, w) =>
            if w = i + 1 then cells ++ Array.replicate (2 ^ i) (UInt8.ofNat s, log + 1 - w)
            else cells) cells) #[]
      .ok ⟨log, cells⟩

/-- Weights from two states in turn, until the stream has too few bits for the
next one: then the other state has the last symbol. -/
def readWeights (t : FseTable) : (fuel : Nat) → (state other : Nat) → BitStream → List Nat
  | 0, _, _, _ => []
  | fuel + 1, state, other, s =>
    let c := t.cell state
    match s.take c.bits with
    | .error _ => [c.symbol, (t.cell other).symbol]
    | .ok (n, s) => c.symbol :: readWeights t fuel other (c.base + n) s

/-- A table described at `lo`, within `hi`, and the position behind it. -/
def read (data : ByteArray) (lo hi : Nat) : Except Fault (HuffmanTable × Nat) := do
  if hi ≤ lo then throw .corrupted
  let header := (byteAt data lo).toNat
  if 128 ≤ header then
    let n := header - 127
    let next := lo + 1 + (n + 1) / 2
    if hi < next then throw .corrupted
    let weights := (List.range n).map fun i =>
      let b := (byteAt data (lo + 1 + i / 2)).toNat
      if i % 2 = 0 then b / 16 else b % 16
    return (← ofWeights weights, next)
  else
    let next := lo + 1 + header
    if hi < next then throw .corrupted
    let (table, first) ← FseTable.read data (lo + 1) next 6 255
    let s ← BitStream.ofRange data first next
    let (a, s) ← table.start s
    let (b, s) ← table.start s
    let weights := readWeights table 256 a b s
    if 255 < weights.length then throw .corrupted
    return (← ofWeights weights, next)

/-- `n` symbols, which must take up the stream exactly. -/
def decode (t : HuffmanTable) : (n : Nat) → BitStream → ByteArray → Except Fault ByteArray
  | 0, s, out => if s.left = 0 then .ok out else .error .corrupted
  | n + 1, s, out =>
    let (symbol, bits) := t.cells.getD (s.peek t.log) (0, 0)
    if bits ≤ s.left then decode t n { s with left := s.left - bits } (out.push symbol)
    else .error .corrupted

end HuffmanTable
end PoolKeeper.Zstd
