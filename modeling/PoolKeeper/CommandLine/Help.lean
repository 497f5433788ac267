/-
What is shown to a user who asks what may stand on the command line.
-/
import PoolKeeper.CommandLine.Command

namespace PoolKeeper

/-- How an option is written, and the environment variable that stands for it. -/
def OptionSpec.help (o : OptionSpec) : String :=
  (o.short.elim "      " fun c => "  -" ++ c.toString ++ ", ") ++ "--" ++ o.name
    ++ (match o.arity with
      | .flag => ""
      | .single => " <VALUE>"
      | .list => " <VALUE,...>")
    ++ o.environment.elim "" fun name => "  [env: " ++ name ++ "]"

namespace CommandLine

/-- A command with its own options. -/
def commandHelp (name : String) (options : Options Command) : List String :=
  ("  " ++ name) :: options.specs.map fun o => "    " ++ o.help

/-- All commands and settings, line by line. -/
def help : List String :=
  [UsageError.help.message, "", "commands:"]
    ++ commands.flatMap (fun (name, options) => commandHelp name options)
    ++ ["", "options:"] ++ settingsOptions.specs.map OptionSpec.help

end CommandLine
end PoolKeeper
