/-
Options: what may be given for a command, and the record that is read from
what is given.
-/
import PoolKeeper.CommandLine.Value
import PoolKeeper.Text

namespace PoolKeeper

/-- How many values an option takes, and what they mean together. -/
inductive Arity where
  /-- No value: the option is on when it is given. -/
  | flag
  | single
  /-- Values between commas, in one place or several. -/
  | list
  deriving DecidableEq

structure OptionSpec where
  name : String
  short : Option Char
  /-- The environment variable that stands for the option when it is not given. -/
  environment : Option String
  arity : Arity
  /-- Why a value is none for the option. -/
  check : String → Except UsageError Unit

/-- The values of the options that have been given. -/
abbrev Given := List (String × List String)

/-- Options, and how a value is made of what is given for them. Whatever is
given has been checked; only what is missing can be wrong. -/
structure Options (α : Type) where
  specs : List OptionSpec
  read : Given → Except UsageError α

instance : Functor Options where
  map f o := ⟨o.specs, fun g => f <$> o.read g⟩

instance : Seq Options where
  seq f o := ⟨f.specs ++ (o ()).specs, fun g => do return (← f.read g) (← (o ()).read g)⟩

namespace Options
variable {α : Type}

/-- One option, by its name alone, and the reading of its values if it is given. -/
def one (name : String) (short : Option Char) (environment : Option String) (arity : Arity)
    {β : Type} (r : ValueReader β) (read : Option (List String) → Except UsageError α) :
    Options α :=
  ⟨[⟨name, short, environment, arity, fun s => (fun _ => ()) <$> r s⟩],
    fun g => read (g.lookup name)⟩

/-- The last of some values, if there are any. -/
def last (r : ValueReader α) : Option (List String) → Except UsageError (Option α)
  | none => .ok none
  | some vs =>
    match vs.getLast? with
    | none => .ok none
    | some v => some <$> r v

def optional (name : String) (short : Option Char) (environment : Option String)
    (r : ValueReader α) : Options (Option α) :=
  one name short environment .single r (last r)

def required (name : String) (short : Option Char) (environment : Option String)
    (r : ValueReader α) : Options α :=
  one name short environment .single r fun vs => do
    match ← last r vs with
    | some a => return a
    | none => throw .missingRequired

def withDefault (name : String) (short : Option Char) (environment : Option String) (default : α)
    (r : ValueReader α) : Options α :=
  (fun a => a.getD default) <$> optional name short environment r

def flag (name : String) (environment : Option String) : Options Bool :=
  one name none environment .flag .bool fun vs => do return (← last .bool vs).getD false

def list (name : String) (environment : Option String) (r : ValueReader α) : Options (List α) :=
  one name none environment .list r fun vs => (vs.getD []).mapM r

end Options
end PoolKeeper
