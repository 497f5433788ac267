/-
Taking a command line apart: options in their many ways of being written, and
the command that they belong to.

A value that follows its option is looked at only when the next option comes,
or the end; so of two mistakes the one that shows first in that order counts.
-/
import PoolKeeper.CommandLine.Options

namespace PoolKeeper.CommandLine

/-- What may be written at one level: options, and the commands below it. -/
structure Level where
  options : List OptionSpec
  commands : List String

/-- What has been read of one level. -/
structure Progress where
  given : Given
  /-- An option that has not been settled yet, and the value that followed it. -/
  pending : Option (OptionSpec × Option String)
  /-- After `--` there are no options. -/
  plain : Bool

namespace Progress

def start : Progress := ⟨[], none, false⟩

/-- The last option waits for its value. -/
def awaits (p : Progress) : Bool :=
  match p.pending with
  | some (_, none) => true
  | _ => false

def isGiven (p : Progress) (o : OptionSpec) : Bool := (p.given.lookup o.name).isSome

/-- The values in a text. -/
def valuesIn (o : OptionSpec) (text : String) : List String :=
  match o.arity with
  | .list => (Text.splitOn ',' text.toList).map String.ofList
  | _ => [text]

/-- Adds values to those of an option. -/
def add (p : Progress) (o : OptionSpec) (values : List String) : Progress :=
  let before := (p.given.lookup o.name).getD []
  { p with given := (o.name, before ++ values) :: p.given.filter (·.1 != o.name) }

/-- Takes an option with the text of its values, checking them. -/
def take (p : Progress) (o : OptionSpec) (text : Option String) : Except UsageError Progress := do
  let values ← match text, o.arity with
    | some text, _ => pure (valuesIn o text)
    | none, .flag => pure ["true"]
    | none, _ => throw .invalidValue
  if p.isGiven o ∧ o.arity ≠ .list then throw .conflict
  values.forM o.check
  return p.add o values

/-- Takes the option that has not been settled, if there is one. -/
def settle (p : Progress) : Except UsageError Progress :=
  match p.pending with
  | none => .ok p
  | some (o, text) => take { p with pending := none } o text

/-- Takes an option that stands together with its text. -/
def takeNow (p : Progress) (o : OptionSpec) (text : Option String) :
    Except UsageError Progress := do
  (← p.settle).take o text

/-- Starts an option whose value is to follow. -/
def wait (p : Progress) (o : OptionSpec) : Except UsageError Progress := do
  return { (← p.settle) with pending := some (o, none) }

/-- Ends with what is asked for instead of a command, once nothing else is wrong. -/
def stop (p : Progress) (e : UsageError) : Except UsageError Progress := do
  let _ ← p.settle
  throw e

end Progress

/-- An option by its name, and the text behind the equals sign. -/
def longOption (level : Level) (p : Progress) (name : String) (text : Option String) :
    Except UsageError Progress :=
  match level.options.find? (·.name == name), text with
  | some o, some text => if o.arity = .flag then .error .tooManyValues else p.takeNow o (some text)
  | some o, none => if o.arity = .flag then p.takeNow o none else p.wait o
  | none, text =>
    match name, text with
    | "help", none => p.stop .help
    | "version", none => p.stop .version
    | "help", some _ => .error .tooManyValues
    | "version", some _ => .error .tooManyValues
    | _, _ => .error .unknownArgument

/-- Options by their letters. The first that takes a value takes what is left,
with or without an equals sign in front. -/
def shortOptions (level : Level) (p : Progress) : List Char → Except UsageError Progress
  | [] => .ok p
  | c :: cs =>
    match level.options.find? (·.short == some c) with
    | some o =>
      if o.arity = .flag then do shortOptions level (← p.takeNow o none) cs
      else
        match cs with
        | [] => p.wait o
        | '=' :: text => p.takeNow o (some (String.ofList text))
        | text => p.takeNow o (some (String.ofList text))
    | none =>
      if c = 'h' then p.stop .help
      else if c = 'V' then p.stop .version
      else .error .unknownArgument

/-- Why a word is out of place. -/
def strayWord (level : Level) (p : Progress) (word : String) : UsageError :=
  if level.commands.isEmpty ∨ (p.plain ∧ level.commands.contains word) then .unknownArgument
  else .unknownCommand

/-- What follows the command `help`: nothing, or one command. -/
def helpFor (level : Level) : List String → UsageError
  | [] => .help
  | [word] => if level.commands.contains word then .help else .unknownCommand
  | _ => .unknownCommand

/-- One word that is neither a command nor the mark that ends the options. -/
def word (level : Level) (p : Progress) (w : String) : Except UsageError Progress :=
  match w.toList with
  | '-' :: '-' :: cs =>
    let (name, text) := cs.span (· ≠ '=')
    longOption level p (String.ofList name)
      (match text with | [] => none | _ :: text => some (String.ofList text))
  | '-' :: c :: cs => shortOptions level p (c :: cs)
  | _ =>
    match p.pending with
    | some (o, none) => .ok { p with pending := some (o, some w) }
    | _ => .error (strayWord level p w)

/-- Reads the words of a level, up to a command if there is one: what has been
read, and the command with the words behind it. -/
def words (level : Level) (p : Progress) :
    List String → Except UsageError (Progress × Option (String × List String))
  | [] => .ok (p, none)
  | w :: ws =>
    if p.plain then .error (strayWord level p w)
    else if !p.awaits && level.commands.contains w then
      if w = "help" then .error (helpFor level ws) else .ok (p, some (w, ws))
    else if w = "--" then words level { p with plain := true } ws
    else
      match word level p w with
      | .ok p => words level p ws
      | .error e => .error e

/-- Takes an option from its environment variable, if it has not been given. -/
def fromEnvironment (environment : String → Option String) (p : Progress) (o : OptionSpec) :
    Except UsageError Progress :=
  if p.isGiven o then .ok p
  else
    match o.environment.bind environment with
    | some text => p.take o (some text)
    | none => .ok p

/-- All that is given at a level, from the command line and the environment. -/
def complete (level : Level) (environment : String → Option String) (p : Progress) :
    Except UsageError Given := do
  let p ← level.options.foldlM (fromEnvironment environment) (← p.settle)
  return p.given

end PoolKeeper.CommandLine
