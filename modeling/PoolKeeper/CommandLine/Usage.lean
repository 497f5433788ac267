/-
What is wrong with a command line, or asked of it instead of a command.
-/
namespace PoolKeeper

inductive UsageError where
  | help
  | version
  /-- There is nothing on the command line at all. -/
  | nothing
  | missingRequired
  | missingCommand
  | unknownArgument
  | unknownCommand
  /-- A value that no value can be read from. -/
  | unreadableValue
  /-- A value that is none of those allowed, or none at all. -/
  | invalidValue
  /-- An option given twice. -/
  | conflict
  /-- A value for an option that takes none. -/
  | tooManyValues
  deriving DecidableEq

def UsageError.message : UsageError → String
  | help => "usage: rp-node [OPTIONS] <COMMAND>"
  | version => "rp_node rp_node (0.1.0)"
  | nothing | missingCommand => "a command is required, but none was provided"
  | missingRequired => "a required argument was not provided"
  | unknownArgument => "unexpected argument found"
  | unknownCommand => "unrecognized command"
  | unreadableValue => "invalid value for an option"
  | invalidValue => "a value is required for an option, but none that is possible was supplied"
  | conflict => "an option cannot be used multiple times"
  | tooManyValues => "unexpected value for an option"

/-- What the process ends with. Help and version that were asked for are no
mistake. -/
def UsageError.exitCode : UsageError → UInt32
  | help | version => 0
  | _ => 2

end PoolKeeper
