/-
Scanning a JSON text into the tree of its first value.

The scanner is a machine that takes one byte at a time and keeps the open
containers on a stack, so nesting costs no depth of recursion and the machine's
run over `xs ++ ys` is its run over `xs` followed by its run over `ys`.
-/
import PoolKeeper.Json.Literal
import PoolKeeper.Json.Quoted

namespace PoolKeeper.Json

/-- A container that is not closed yet, its contents newest first. -/
inductive Frame where
  | array (items : List Tree)
  | object (members : List (Option String × Tree))
  | member (members : List (Option String × Tree)) (key : Option String)
  /-- An object whose first key starts like another value. -/
  | keyless

/-- What the next byte belongs to. -/
inductive Mode where
  | value
  | firstItem
  | key
  | firstKey
  | colon
  | next
  | quotedKey (q : Quoted)
  | quoted (q : Quoted)
  | name (rest : Bytes) (t : Tree)
  | literal (l : Literal)

inductive Scanner where
  | running (stack : List Frame) (mode : Mode)
  | done (t : Tree)

namespace Scanner

/-- Everything open is left unclosed around `t`, the last thing seen. -/
def abandon : List Frame → Option Tree → Tree
  | [], t => t.getD .fault
  | .array items :: stack, t => abandon stack (some (.array (t.toList ++ items).reverse false))
  | .object members :: stack, _ => abandon stack (some (.object members.reverse false))
  | .member members key :: stack, t =>
    abandon stack (some (.object ((key, t.getD .fault) :: members).reverse false))
  | .keyless :: stack, t => abandon stack (some (.keyless (t.getD .fault)))

/-- A finished value takes its place in the innermost open container. -/
def place (t : Tree) : List Frame → Scanner
  | [] => .done t
  | .array items :: stack => .running (.array (t :: items) :: stack) .next
  | .member members key :: stack => .running (.object ((key, t) :: members) :: stack) .next
  | .object _ :: _ => .done .fault
  | .keyless :: stack => .done (abandon stack (some (.keyless t)))

/-- A fault where a value was expected. -/
def missing (stack : List Frame) : Scanner := .done (abandon stack (some .fault))

/-- A fault between values. -/
def cut (stack : List Frame) : Scanner := .done (abandon stack none)

def isBlank (c : UInt8) : Bool := c = 0x20 || c = 0x0a || c = 0x0d || c = 0x09

/-- The first byte of a value. -/
def opening (stack : List Frame) (c : UInt8) : Scanner :=
  if c = 0x5b then .running (.array [] :: stack) .firstItem
  else if c = 0x7b then .running (.object [] :: stack) .firstKey
  else if c = 0x22 then .running stack (.quoted .start)
  else if c = 0x6e then .running stack (.name [0x75, 0x6c, 0x6c] .null)
  else if c = 0x74 then .running stack (.name [0x72, 0x75, 0x65] (.bool true))
  else if c = 0x66 then .running stack (.name [0x61, 0x6c, 0x73, 0x65] (.bool false))
  else match Literal.start? c with
    | some l => .running stack (.literal l)
    | none => missing stack

/-- A byte after a finished value. -/
def between (stack : List Frame) (c : UInt8) : Scanner :=
  if isBlank c then .running stack .next
  else match stack with
    | .array items :: rest =>
      if c = 0x2c then .running stack .value
      else if c = 0x5d then place (.array items.reverse true) rest
      else cut stack
    | .object members :: rest =>
      if c = 0x2c then .running stack .key
      else if c = 0x7d then place (.object members.reverse true) rest
      else cut stack
    | _ => cut stack

/-- A byte where a key is expected. -/
def beforeKey (stack : List Frame) (first : Bool) (c : UInt8) : Scanner :=
  if isBlank c then .running stack (if first then .firstKey else .key)
  else if c = 0x22 then .running stack (.quotedKey .start)
  else if first ∧ c = 0x7d then
    match stack with
    | .object members :: rest => place (.object members.reverse true) rest
    | _ => cut stack
  else if first then
    match stack with
    | .object _ :: rest => opening (.keyless :: rest) c
    | _ => cut stack
  else cut stack

/-- A finished key waits for its value. -/
def placeKey (k : Option String) : List Frame → Scanner
  | .object members :: rest => .running (.member members k :: rest) .colon
  | stack => cut stack

/-- One byte of the text. -/
def step (s : Scanner) (c : UInt8) : Scanner :=
  match s with
  | .done t => .done t
  | .running stack mode =>
    match mode with
    | .value => if isBlank c then s else opening stack c
    | .firstItem =>
      if isBlank c then s
      else if c = 0x5d then
        match stack with
        | .array items :: rest => place (.array items.reverse true) rest
        | _ => missing stack
      else opening stack c
    | .key => beforeKey stack false c
    | .firstKey => beforeKey stack true c
    | .colon =>
      if isBlank c then s
      else if c = 0x3a then .running stack .value
      else missing stack
    | .next => between stack c
    | .quotedKey q =>
      match q.step c with
      | .more q => .running stack (.quotedKey q)
      | .closed k => placeKey k stack
      | .fault => cut stack
    | .quoted q =>
      match q.step c with
      | .more q => .running stack (.quoted q)
      | .closed s => place (.string s) stack
      | .fault => missing stack
    | .name rest t =>
      match rest with
      | [] => missing stack
      | [d] => if c = d then place t stack else missing stack
      | d :: rest => if c = d then .running stack (.name rest t) else missing stack
    | .literal l =>
      match l.step c with
      | .more l => .running stack (.literal l)
      | .fault => missing stack
      | .stop =>
        match l.finish? with
        | none => missing stack
        | some n =>
          match place (.number n) stack with
          | .running stack _ => between stack c
          | .done t => .done t

/-- The tree when the text ends here. -/
def finish : Scanner → Tree
  | .done t => t
  | .running stack mode =>
    match mode with
    | .literal l =>
      match l.finish? with
      | none => abandon stack (some .fault)
      | some n =>
        match place (.number n) stack with
        | .running stack _ => abandon stack none
        | .done t => t
    | .key | .firstKey | .next | .quotedKey _ => abandon stack none
    | _ => abandon stack (some .fault)

def start : Scanner := .running [] .value

/-- The machine's run over a text. -/
def run (s : Scanner) (text : Bytes) : Scanner := text.foldl step s

theorem run_append (s : Scanner) (xs ys : Bytes) : s.run (xs ++ ys) = (s.run xs).run ys :=
  List.foldl_append

@[simp] theorem run_nil (s : Scanner) : s.run [] = s := rfl

@[simp] theorem run_cons (s : Scanner) (c : UInt8) (cs : Bytes) :
    s.run (c :: cs) = (s.step c).run cs := rfl

end Scanner

/-- The first value of a text. -/
def Tree.scan (text : Bytes) : Tree := (Scanner.start.run text).finish

end PoolKeeper.Json
