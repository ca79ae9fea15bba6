/-!
**Settings of the log.**

Main definitions:
* `LogLevel`, `LogFormat`, `ColorChoice` — the parts of the settings;
* `LogSettings`, `LogSettings.ofFlags` — the settings that the flags of a command line ask for;
* `LogSettings.usesColors?` — whether colours are used, as far as the settings alone decide.
-/

namespace EnvDiscovery

/-- How important a message has to be. -/
inductive LogLevel where
  | error
  | warn
  | info
  | debug
  | trace
deriving DecidableEq, Repr

/-- The name of a level. -/
def LogLevel.name : LogLevel → String
  | error => "ERROR"
  | warn => "WARN"
  | info => "INFO"
  | debug => "DEBUG"
  | trace => "TRACE"

/-- How messages are laid out. -/
inductive LogFormat where
  | pretty
  | json
  | compact
deriving DecidableEq, Repr

/-- The name of a format. -/
def LogFormat.name : LogFormat → String
  | pretty => "Pretty"
  | json => "Json"
  | compact => "Compact"

/-- Whether colours are wanted. -/
inductive ColorChoice where
  | auto
  | always
  | never
deriving DecidableEq, Repr

/-- The name of a choice. -/
def ColorChoice.name : ColorChoice → String
  | auto => "Auto"
  | always => "Always"
  | never => "Never"

/-- The choice that a word asks for; any other word leaves it open. -/
def ColorChoice.ofWord : Option String → ColorChoice
  | some "always" => always
  | some "never" => never
  | _ => auto

/-- The settings of the log. -/
structure LogSettings where
  level : LogLevel := .warn
  format : LogFormat := .pretty
  color : ColorChoice := .auto
  showTargets : Bool := false
  showTimestamps : Bool := false
deriving DecidableEq, Repr

/-- The level that the flags ask for; being quiet wins. -/
def LogLevel.ofFlags (verbose quiet : Bool) : LogLevel :=
  if quiet then error else if verbose then debug else warn

/-- The settings that the flags of a command line ask for. -/
def LogSettings.ofFlags (verbose quiet : Bool) (color : Option String) : LogSettings :=
  { level := .ofFlags verbose quiet, color := .ofWord color }

/-- Whether colours are used; no answer if that depends on the terminal. -/
def LogSettings.usesColors? (s : LogSettings) : Option Bool :=
  match s.color with
  | .always => some true
  | .never => some false
  | .auto => none

end EnvDiscovery
