import EnvDiscovery.Environment.Kind
import EnvDiscovery.FileSystem.Basic
import EnvDiscovery.Host
import EnvDiscovery.Text.Blank

/-!
**Telling the kind of an environment from its files.**

Seven predicates look at a candidate in a fixed order, and the first that claims it decides.

Main definitions:
* `Candidate` — an interpreter and the home of its environment;
* `Classify.conda`, `Classify.windowsStore`, `Classify.pipenv`, `Classify.pyenv`, `Classify.venv`,
  `Classify.virtualEnvWrapper`, `Classify.virtualEnv` — the predicates;
* `Classify.claims` — all of them, in order;
* `Classify.identify`, `Classify.classify` — the first claim, or a given kind.
-/

namespace EnvDiscovery

/-- An interpreter and the home of the environment it belongs to. -/
structure Candidate where
  executable : Path
  home : Option Path
deriving DecidableEq, Repr

/-- The candidate that an executable suggests. -/
def Candidate.ofExecutable (executable : Path) : Candidate :=
  ⟨executable, executable.homeOf?⟩

/-- The last name of a path as it is shown, or nothing. -/
def Path.environmentName (home : Path) : String :=
  (home.fileName?.map Text.shown).getD ""

namespace Classify

/-- The files that only a base installation of conda has. -/
def baseMarkers (home : Path) : List Path :=
  [home / "condabin", home / "bin" / "conda", home / "Scripts" / "conda.exe"]

/-- A conda environment has a folder `conda-meta`. -/
def conda (fs : FileSystem) (c : Candidate) : Option EnvKind := do
  let home ← c.home
  if !fs.isDir (home / "conda-meta") then none
  else if (baseMarkers home).any fs.present then some .condaBase
  else some .conda

/-- An installation from the store lies in `Microsoft/WindowsApps`. -/
def windowsStore (c : Candidate) : Option EnvKind :=
  let key := (Text.asciiLower c.executable.key).toList
  if Text.occursIn "microsoft\\windowsapps".toList key ||
      Text.occursIn "microsoft/windowsapps".toList key then some .windowsStore
  else none

/-- Whether the file `.project` of an environment names a folder with a Pipfile. -/
def hasPipenvProject (fs : FileSystem) (home : Path) (pipfile : String) : Bool :=
  match fs.readText (home / ".project") with
  | none => false
  | some content =>
    let project : Path := ⟨Text.trim content⟩
    !project.text.isEmpty && fs.present (project / pipfile)

/-- Whether an environment is the folder `.venv` beside a Pipfile. -/
def isBesidePipfile (fs : FileSystem) (home : Path) (pipfile : String) : Bool :=
  home.fileName? == some ".venv" && home.parent?.any fun project => fs.present (project / pipfile)

/-- A pipenv environment names its project, or is the folder `.venv` of it. -/
def pipenv (fs : FileSystem) (host : Host) (c : Candidate) : Option EnvKind := do
  let home ← c.home
  let pipfile := (host.var "PIPENV_PIPFILE").getD "Pipfile"
  if hasPipenvProject fs home pipfile || isBesidePipfile fs home pipfile then some .pipenv else none

/-- An interpreter of pyenv lies in the folder `versions` of pyenv. -/
def pyenv (host : Host) (c : Candidate) : Option EnvKind := do
  let root ← host.pyenvRoot
  if c.executable.within (root / "versions") then some .pyenv else none

/-- A venv has a file `pyvenv.cfg`. -/
def venv (fs : FileSystem) (c : Candidate) : Option EnvKind := do
  let home ← c.home
  if fs.present (home / "pyvenv.cfg") then some .venv else none

/-- Whether a character may stand in the ending of an activation script. Besides the ASCII letters
and digits there are two characters that equal one of them up to case. -/
def isEndingChar (c : Char) : Bool :=
  c.isAlphanum || c.toNat == 0x17F || c.toNat == 0x212A

/-- Whether a file name is `activate` with at most one ending, in any case. -/
def isActivateName (s : String) : Bool :=
  match Text.afterStart? "activate".toList (s.toList.map Char.toLower) with
  | some [] => true
  | some ('.' :: ending) => !ending.isEmpty && ending.all isEndingChar
  | _ => false

/-- A virtualenv has an activation script beside its interpreter. -/
def virtualEnv (fs : FileSystem) (c : Candidate) : Option EnvKind := do
  let home ← c.home
  if (fs.listDir (home / Path.scriptsDir)).any (·.fileName?.any isActivateName) then
    some .virtualEnv
  else none

/-- A virtualenv in the folder of virtualenvwrapper. -/
def virtualEnvWrapper (fs : FileSystem) (host : Host) (c : Candidate) : Option EnvKind := do
  let home ← c.home
  let folder ← host.workonHome
  if home.within folder then (virtualEnv fs c).map fun _ => .virtualEnvWrapper else none

/-- What each predicate says, in order. -/
def claims (fs : FileSystem) (host : Host) (c : Candidate) : List (Option EnvKind) :=
  [conda fs c, windowsStore c, pipenv fs host c, pyenv host c, venv fs c,
   virtualEnvWrapper fs host c, virtualEnv fs c]

/-- The kind that the first predicate with a claim gives. -/
def identify (fs : FileSystem) (host : Host) (c : Candidate) : Option EnvKind :=
  (claims fs host c).findSome? id

/-- The kind of a candidate, or the given one when no predicate claims it. -/
def classify (fs : FileSystem) (host : Host) (c : Candidate) (fallback : EnvKind) : EnvKind :=
  (identify fs host c).getD fallback

end Classify

end EnvDiscovery
