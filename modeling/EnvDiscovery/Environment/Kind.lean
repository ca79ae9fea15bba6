import EnvDiscovery.Text.Ascii

/-!
**Kinds of environments.**

Main definitions:
* `EnvKind` — which tool or layout an environment comes from;
* `EnvKind.specificity` — the rank by which the better of two reports is chosen;
* `EnvKind.parse` — a kind by its name, in any case;
* `EnvKind.category` — the coarser division of a listing.
-/

namespace EnvDiscovery

/-- Which tool or layout an environment comes from. -/
inductive EnvKind where
  | unknown
  | system
  | macDefault
  | windowsStore
  | pyenv
  | conda
  | condaBase
  | virtualEnv
  | pipenv
  | venv
  | virtualEnvWrapper
  | otherGlobal
  | otherVirtual
  | custom
deriving DecidableEq, Repr

namespace EnvKind

/-- All kinds, in order. -/
def all : List EnvKind :=
  [unknown, system, macDefault, windowsStore, pyenv, conda, condaBase, virtualEnv, pipenv, venv,
   virtualEnvWrapper, otherGlobal, otherVirtual, custom]

/-- The name of a kind. -/
def name : EnvKind → String
  | unknown => "unknown"
  | system => "system"
  | macDefault => "mac-default"
  | windowsStore => "windows-store"
  | pyenv => "pyenv"
  | conda => "conda"
  | condaBase => "conda-base"
  | virtualEnv => "virtualenv"
  | pipenv => "pipenv"
  | venv => "venv"
  | virtualEnvWrapper => "virtualenvwrapper"
  | otherGlobal => "other-global"
  | otherVirtual => "other-virtual"
  | custom => "custom"

/-- How much a kind says about an environment. -/
def specificity : EnvKind → Nat
  | conda | condaBase => 10
  | windowsStore => 9
  | pipenv => 8
  | pyenv => 7
  | venv => 6
  | virtualEnvWrapper => 5
  | virtualEnv => 4
  | custom | otherVirtual => 3
  | macDefault => 2
  | system | otherGlobal => 1
  | unknown => 0

/-- Whether environments of the kind stand on top of a base interpreter. -/
def isVirtual : EnvKind → Bool
  | venv | virtualEnv | virtualEnvWrapper | pipenv | otherVirtual | conda => true
  | _ => false

/-- A kind by its name, whatever the case of the letters. -/
def parse (s : String) : Option EnvKind :=
  all.find? fun k => Text.eqIgnoreCase k.name s

/-- What is said of a text that names no kind. -/
def unknownMessage (s : String) : String :=
  "unknown environment kind '" ++ s ++ "'"

/-! ### Categories -/

/-- The divisions of a listing. -/
inductive Category where
  | unknown
  | conda
  | virtualEnv
  | pipenv
  | pyenv
  | venv
  | windowsStore
  | global
  | system
deriving DecidableEq, Repr

/-- The name of a category. -/
def Category.name : Category → String
  | unknown => "Unknown"
  | conda => "Conda"
  | virtualEnv => "VirtualEnv"
  | pipenv => "Pipenv"
  | pyenv => "Pyenv"
  | venv => "Venv"
  | windowsStore => "WindowsStore"
  | global => "Global"
  | system => "System"

/-- The category of a kind. -/
def category : EnvKind → Category
  | conda | condaBase => .conda
  | virtualEnv | virtualEnvWrapper | otherVirtual => .virtualEnv
  | pipenv => .pipenv
  | pyenv => .pyenv
  | venv => .venv
  | windowsStore => .windowsStore
  | system | macDefault => .system
  | otherGlobal => .global
  | unknown | custom => .unknown

end EnvKind

end EnvDiscovery
