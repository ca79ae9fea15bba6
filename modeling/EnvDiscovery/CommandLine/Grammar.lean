import EnvDiscovery.Environment.Source
import EnvDiscovery.Path.Basic

/-!
**The grammar of the command line.**

A command line is a chain of levels, each with options, subcommands or a positional argument of its
own. Some options are allowed at every level.

Main definitions:
* `CommandLine`, `Subcommand`, `GlobalOptions` — what a command line asks for;
* `Usage` — why a command line is not carried out;
* `Level` — the levels, with `Level.options`, `Level.positional?` and `Level.sub?`;
* `Argument` — an option or a positional argument.
-/

namespace EnvDiscovery

/-- The name of the program. -/
def programName : String := "pyscout"

/-- The version of the program. -/
def programVersion : String := "0.1.0"

/-- What is done with the cache. -/
inductive CacheAction where
  | clear
  | info
deriving DecidableEq, Repr

/-- The name of an action. -/
def CacheAction.name : CacheAction → String
  | clear => "clear"
  | info => "info"

/-- The shells for which completions exist. -/
inductive Shell where
  | bash
  | elvish
  | fish
  | powershell
  | zsh
deriving DecidableEq, Repr

namespace Shell

/-- All shells. -/
def all : List Shell := [bash, elvish, fish, powershell, zsh]

/-- The name of a shell. -/
def name : Shell → String
  | bash => "bash"
  | elvish => "elvish"
  | fish => "fish"
  | powershell => "powershell"
  | zsh => "zsh"

/-- A shell by its exact name. -/
def parse (s : String) : Option Shell :=
  all.find? (·.name == s)

end Shell

/-- What the program is asked to do. -/
inductive Subcommand where
  | list (roots : List Path) (sources : List EnvSource) (resource : Option Path) (json : Bool)
  | resolve (path : Path) (json : Bool)
  | watch (roots : List Path)
  | cache (action : CacheAction)
  | generateCompletion (shell : Shell)
deriving DecidableEq, Repr

/-- The options that are allowed at every level. -/
structure GlobalOptions where
  verbose : Bool
  quiet : Bool
  config : Option Path
  color : Option String
deriving DecidableEq, Repr

/-- What a command line asks for. -/
structure CommandLine where
  command : Subcommand
  options : GlobalOptions
deriving DecidableEq, Repr

/-- Why a command line is not carried out. -/
inductive Usage where
  | displayHelp
  | displayVersion
  | displayHelpOnMissing
  | missingSubcommand
  | invalidSubcommand
  | unknownArgument
  | argumentConflict
  | tooManyValues
  | invalidValue
  | valueValidation
  | missingRequired
deriving DecidableEq, Repr

/-- The exit code: asking for help or for the version is no error. -/
def Usage.exitCode : Usage → Nat
  | displayHelp | displayVersion => 0
  | _ => 2

/-! ### Arguments -/

/-- What an argument does when it is met. -/
inductive ArgumentAction where
  | setFlag
  | setValue
  | addValue
  | showHelp
  | showVersion
deriving DecidableEq, Repr

/-- The values that an argument takes. -/
inductive ValueKind where
  | path
  | text
  | source
  | shell
deriving DecidableEq, Repr

/-- An option with its long name and perhaps a letter, or a positional argument with its name. -/
structure Argument where
  name : String
  letter : Option Char
  action : ArgumentAction
  kind : ValueKind
deriving DecidableEq, Repr

/-- Whether an argument takes a value. -/
def Argument.takesValue (a : Argument) : Bool :=
  a.action = .setValue || a.action = .addValue

/-- Why a text is no value of a kind, if it is none. -/
def ValueKind.fault? (k : ValueKind) (s : String) : Option Usage :=
  match k with
  | path => if s.isEmpty then some .invalidValue else none
  | text => none
  | source => if (EnvSource.parse s).isNone then some .valueValidation else none
  | shell => if (Shell.parse s).isNone then some .invalidValue else none

namespace Argument

/-- A flag without a letter. -/
def flag (name : String) : Argument := ⟨name, none, .setFlag, .text⟩

/-- An option with a value. -/
def single (name : String) (kind : ValueKind) : Argument := ⟨name, none, .setValue, kind⟩

/-- An option that may be repeated. -/
def repeated (name : String) (kind : ValueKind) : Argument := ⟨name, none, .addValue, kind⟩

/-- The options that are allowed at every level. -/
def globals : List Argument :=
  [⟨"verbose", some 'v', .setFlag, .text⟩, ⟨"quiet", some 'q', .setFlag, .text⟩,
    ⟨"config", some 'c', .setValue, .path⟩, ⟨"color", none, .setValue, .text⟩]

/-- The option that asks for help. -/
def help : Argument := ⟨"help", some 'h', .showHelp, .text⟩

/-- The option that asks for the version. -/
def version : Argument := ⟨"version", some 'V', .showVersion, .text⟩

end Argument

/-! ### Levels -/

/-- The levels of a command line. -/
inductive Level where
  | program
  | list
  | resolve
  | watch
  | cache
  | cacheClear
  | cacheInfo
  | generateCompletion
  | help
deriving DecidableEq, Repr

namespace Level

/-- The subcommands of a level. Where there are any, `help` is one. -/
def subs : Level → List (String × Level)
  | program => [("list", list), ("resolve", resolve), ("watch", watch), ("cache", cache),
      ("generate-completion", generateCompletion), ("help", help)]
  | cache => [("clear", cacheClear), ("info", cacheInfo), ("help", help)]
  | _ => []

/-- The subcommand of a name. -/
def sub? (l : Level) (name : String) : Option Level :=
  l.subs.lookup name

/-- The options of a level that are not allowed at every level. -/
def ownOptions : Level → List Argument
  | program => [.version]
  | list =>
    [.repeated "root" .path, .repeated "source" .source, .single "resource" .path, .flag "json"]
  | resolve => [.flag "json"]
  | watch => [.repeated "root" .path]
  | _ => []

/-- The options of a level. -/
def options (l : Level) : List Argument :=
  l.ownOptions ++ Argument.globals ++ [.help]

/-- The positional argument of a level, which is required. -/
def positional? : Level → Option Argument
  | resolve => some (.single "path" .path)
  | generateCompletion => some (.single "shell" .shell)
  | _ => none

/-- The option of a long name. -/
def optionNamed (l : Level) (name : String) : Option Argument :=
  l.options.find? (·.name == name)

/-- The option of a letter. -/
def optionOf (l : Level) (letter : Char) : Option Argument :=
  l.options.find? (·.letter == some letter)

end Level

end EnvDiscovery
