import EnvDiscovery.CommandLine.Grammar

/-!
**Writing a command line.**

Options stand in their long form with their values attached, those of the program before the
subcommand and repeated ones in order. A positional argument stands after two dashes.

Main definitions:
* `Subcommand.arguments` — the arguments of a subcommand, its name first;
* `GlobalOptions.arguments` — the arguments of the options that are allowed at every level;
* `CommandLine.render` — the whole command line.
-/

namespace EnvDiscovery

/-- An option with its value attached. -/
def longOption (name value : String) : String :=
  "--" ++ name ++ "=" ++ value

/-- A flag, if it is set. -/
def longFlag (name : String) (isSet : Bool) : List String :=
  if isSet then ["--" ++ name] else []

/-- The arguments of a subcommand, its name first. -/
def Subcommand.arguments : Subcommand → List String
  | list roots sources resource json =>
    "list" :: roots.map (longOption "root" ·.text) ++ sources.map (longOption "source" ·.name) ++
      resource.toList.map (longOption "resource" ·.text) ++ longFlag "json" json
  | resolve path json => "resolve" :: longFlag "json" json ++ ["--", path.text]
  | watch roots => "watch" :: roots.map (longOption "root" ·.text)
  | cache action => ["cache", action.name]
  | generateCompletion shell => ["generate-completion", "--", shell.name]

/-- The arguments of the options that are allowed at every level. -/
def GlobalOptions.arguments (o : GlobalOptions) : List String :=
  longFlag "verbose" o.verbose ++ longFlag "quiet" o.quiet ++
    o.config.toList.map (longOption "config" ·.text) ++ o.color.toList.map (longOption "color")

/-- The arguments of a command line. -/
def CommandLine.render (c : CommandLine) : List String :=
  c.options.arguments ++ c.command.arguments

end EnvDiscovery
