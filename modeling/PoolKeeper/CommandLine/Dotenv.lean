/-
Files of environment variables: one assignment a line, with comments, two kinds
of quotes, and names of variables for their values.

A text in quotes may go on over several lines. The first line that is no
assignment ends the reading; what stands in front of it counts.
-/
import PoolKeeper.Text

namespace PoolKeeper.Dotenv

/-! ## Lines -/

/-- Where a character stands, as far as the end of a line is concerned. -/
inductive Place where
  | outside
  | afterBlank
  | escaped
  /-- Between quotes, single ones or double ones. -/
  | quoted (single : Bool)
  | quotedEscaped (single : Bool)
  | comment
  deriving DecidableEq

namespace Place

/-- Outside of quotes, behind a character that opens nothing. -/
def opened (c : Char) : Place :=
  if c = '\\' then escaped
  else if c = '\x22' then quoted false
  else if c = '\x27' then quoted true
  else outside

/-- Where the next character stands. -/
def next (p : Place) (c : Char) : Place :=
  match p with
  | afterBlank => if c = '#' then comment else opened c
  | escaped => outside
  | outside => if Text.isBlank c ∧ c ≠ '\n' ∧ c ≠ '\r' then afterBlank else opened c
  | quoted single =>
    if c = '\\' then quotedEscaped single
    else if c = (if single then '\x27' else '\x22') then outside
    else quoted single
  | quotedEscaped single => quoted single
  | comment => comment

end Place

/-- A line up to its end, which is part of it, and what follows. -/
def firstLine : List Char → List Char × List Char
  | [] => ([], [])
  | '\n' :: cs => (['\n'], cs)
  | c :: cs => let (l, rest) := firstLine cs; (c :: l, rest)

/-- The part of a line in front of a comment, and where its end stands. -/
def scanLine : Place → List Char → List Char × Place
  | p, [] => ([], p)
  | p, c :: cs =>
    match p.next c with
    | .comment => ([], .comment)
    | p => let (l, q) := scanLine p cs; (c :: l, q)

/-- A text without the end of line that it has. -/
def withoutLineEnd (l : List Char) : List Char :=
  match l.reverse with
  | '\n' :: '\r' :: cs => cs.reverse
  | '\n' :: cs => cs.reverse
  | _ => l

theorem length_firstLine (cs : List Char) :
    (firstLine cs).1.length + (firstLine cs).2.length = cs.length := by
  fun_induction firstLine cs with
  | case1 => rfl
  | case2 cs => simp; omega
  | case3 c cs h l rest e ih => simp_all; omega

/-- The next assignment to be read, over as many lines as it takes, and what
follows it; nothing if there is no more, a failure if it has no end. -/
def entry (before : List Char) (p : Place) (cs : List Char) :
    Option (Except Unit (List Char × List Char)) :=
  if _h : cs = [] then (if p = .outside then none else some (.error ()))
  else
    let line := (firstLine cs).1
    let rest := (firstLine cs).2
    if ((before ++ line).dropWhile Text.isBlank).head? = some '#' then some (.ok ([], rest))
    else
      match scanLine p line with
      | (l, .outside) => some (.ok (withoutLineEnd (before ++ l), rest))
      | (l, .comment) => some (.ok (before ++ l, rest))
      | (l, p) => entry (before ++ l) p rest
termination_by cs.length
decreasing_by
  have := length_firstLine cs
  have : 0 < (firstLine cs).1.length := by
    cases cs with
    | nil => exact absurd rfl _h
    | cons c cs =>
      unfold firstLine
      split <;> simp_all
  omega

/-! ## Values -/

/-- The variables that a value may name. -/
abbrev Scope := String → Option String

/-- What stands in the place of a name. A variable that is not set is empty. -/
def Scope.value (s : Scope) (name : String) : List Char := ((s name).getD "").toList

/-- How a character of a value is read. -/
inductive Mode where
  | bare
  /-- Behind the value. -/
  | ended
  | bareEscaped
  | single
  | double
  | doubleEscaped
  /-- In the name of a variable, between braces or not, and between double
  quotes or not. -/
  | name (braces inQuotes : Bool) (sofar : List Char)

/-- What a character means outside of everything that changes its meaning. -/
def plainMode (inQuotes : Bool) (c : Char) : Mode × List Char :=
  if c = '$' then (.name false inQuotes [], [])
  else if inQuotes then
    if c = '\x22' then (.bare, [])
    else if c = '\\' then (.doubleEscaped, [])
    else (.double, [c])
  else if c = '\x27' then (.single, [])
  else if c = '\x22' then (.double, [])
  else if c = '\\' then (.bareEscaped, [])
  else if c = ' ' ∨ c = '\t' then (.ended, [])
  else (.bare, [c])

/-- What an escaped character stands for. -/
def unescaped? (c : Char) : Option Char :=
  if c = '\\' ∨ c = '\x27' ∨ c = '\x22' ∨ c = '$' ∨ c = ' ' then some c
  else if c = 'n' then some '\n'
  else none

/-- Letters and digits of all scripts, as far as they are told apart here: the
ASCII ones, and whatever is not ASCII. -/
def isNameChar (c : Char) : Bool := c.isAlphanum || '\x7f' < c

/-- One character of a value: how the next one is read, and what is added to
the value. A name that ends in front of a character is replaced first; the
character then stands for itself. -/
def step (s : Scope) (m : Mode) (c : Char) : Option (Mode × List Char) :=
  let back (inQuotes : Bool) : Mode := if inQuotes then .double else .bare
  match m with
  | .ended => if c = ' ' ∨ c = '\t' then some (.ended, []) else none
  | .bareEscaped => (unescaped? c).map fun c => (.bare, [c])
  | .doubleEscaped => (unescaped? c).map fun c => (.double, [c])
  | .single => some (if c = '\x27' then (.bare, []) else (.single, [c]))
  | .name braces inQuotes sofar =>
    if isNameChar c then some (.name braces inQuotes (sofar ++ [c]), [])
    else if braces then
      if c = '\x7d' then some (back inQuotes, Scope.value s (String.ofList sofar))
      else some (.name braces inQuotes (sofar ++ [c]), [])
    else if c = '\x7b' ∧ sofar = [] then some (.name true inQuotes [], [])
    else
      let value := Scope.value s (String.ofList sofar)
      if c = '$' then some (.name false inQuotes [], value)
      else some (back inQuotes, value ++ [c])
  | .bare => some (plainMode false c)
  | .double => some (plainMode true c)

/-- The value in a text. -/
def value (s : Scope) : Mode → List Char → Option (List Char)
  | .ended, '#' :: _ => some []
  | m, [] =>
    match m with
    | .single | .double | .doubleEscaped => none
    | .name true _ _ => none
    | .name false true _ => none
    | .name false false sofar => some (Scope.value s (String.ofList sofar))
    | _ => some []
  | m, c :: cs => do
    let (m, added) ← step s m c
    return added ++ (← value s m cs)

/-! ## Assignments -/

/-- A name, and what follows it and blanks behind it. -/
def name? (cs : List Char) : Option (String × List Char) :=
  match cs with
  | [] => none
  | c :: _ =>
    if c.isAlpha ∨ c = '_' then
      let (name, rest) := cs.span fun c => c.isAlphanum || c = '_' || c = '.'
      some (String.ofList name, rest.dropWhile Text.isBlank)
    else none

/-- The name that is assigned to, and the text behind the equals sign. The word
`export` may stand in front. -/
def target? (cs : List Char) : Option (String × List Char) := do
  let (name, rest) ← name? cs
  match rest with
  | '=' :: rest => return (name, rest)
  | _ =>
    if name = "export" then
      let (name, rest) ← name? rest
      match rest with
      | '=' :: rest => return (name, rest)
      | _ => none
    else none

/-- The assignment in a line, if there is one; a failure if it is something else. -/
def assignment (s : Scope) (line : List Char) : Option (Option (String × String)) := do
  let cs := ((line.reverse.dropWhile Text.isBlank).reverse).dropWhile Text.isBlank
  if cs.isEmpty ∨ cs.head? = some '#' then return none
  let (name, rest) ← target? cs
  let rest := rest.dropWhile Text.isBlank
  if rest.isEmpty ∨ rest.head? = some '#' then return some (name, "")
  return some (name, String.ofList (← value s .bare rest))

/-- The assignments of a text, up to the first line that is none. -/
def assignments (environment : String → Option String) :
    (fuel : Nat) → (sofar : List (String × String)) → List Char → List (String × String)
  | 0, sofar, _ => sofar
  | fuel + 1, sofar, cs =>
    match entry [] .outside cs with
    | none => sofar
    | some (.error _) => sofar
    | some (.ok (line, rest)) =>
      let scope : Scope := fun name => (environment name).orElse fun _ => sofar.reverse.lookup name
      match assignment scope line with
      | none => sofar
      | some none => assignments environment fuel sofar rest
      | some (some a) => assignments environment fuel (a :: sofar) rest

/-- The environment together with what a file assigns. What is set already
stays, and of two assignments to one name the first counts. -/
def extend (environment : String → Option String) (text : String) : String → Option String :=
  let cs := text.toList
  let cs := if cs.head? = some '\ufeff' then cs.drop 1 else cs
  let file := (assignments environment (cs.length + 1) [] cs).reverse
  fun name => (environment name).orElse fun _ => file.lookup name

/-! ## Where the file is -/

/-- The directory and those that it lies in, from their parts in reverse. -/
def upwards : List (List Char) → List String
  | [] => ["/"]
  | part :: above =>
    ("/" ++ "/".intercalate ((part :: above).reverse.map String.ofList)) :: upwards above

/-- The files that are looked for from a directory on. The first that there is
counts. -/
def candidates (directory : String) : List String :=
  let parts := (Text.splitOn '/' directory.toList).filter (!·.isEmpty)
  (upwards parts.reverse).map fun d => if d = "/" then "/.env" else d ++ "/.env"

end PoolKeeper.Dotenv
