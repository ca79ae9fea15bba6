import EnvDiscovery.Locator.Scan

/-!
**Searching folders.**

Each search lists all environments it finds, and recognises one of them by its executable.

Main definitions:
* `GlobalVirtualEnvs` — virtual environments in folders of the user;
* `Pyenv` — interpreters that pyenv installed;
* `KnownPaths`, `SearchPath` — directories of programs, by convention and by `PATH`;
* `RootVirtualEnvs` — virtual environments of a workspace root.
-/

namespace EnvDiscovery

/-! ### Virtual environments in folders of the user -/

namespace GlobalVirtualEnvs

/-- The folders that are searched, each place once. -/
def folders (host : Host) (extra : List Path) : List Path :=
  let workon := (host.var "WORKON_HOME").toList.map Path.mk
  let home := match host.home with
    | none => []
    | some h => [h / ".virtualenvs", h / "Envs", h / ".venvs", h / ".direnv",
        h / ".local" / "share" / "virtualenvs"]
  Path.distinct (workon ++ home ++ extra)

/-- All environments in the folders. -/
def list (s : Surroundings) (extra : List Path) : List EnvRecord :=
  (folders s.host extra).flatMap fun dir => s.recordsIn dir .virtualEnv .globalVirtualEnv none

/-- The environment of an executable, if its home is in one of the folders. -/
def resolve (s : Surroundings) (extra : List Path) (executable : Path) : Option EnvRecord := do
  let home ← executable.homeOf?
  let parent ← home.parent?
  if (folders s.host extra).any (·.samePlace parent) && s.fs.isFile executable then
    some (s.recordOfHome home executable .virtualEnv .globalVirtualEnv)
  else none

end GlobalVirtualEnvs

/-! ### Interpreters of pyenv -/

namespace Pyenv

/-- The folder of installed versions. -/
def versionsDir (host : Host) : Option Path :=
  host.pyenvRoot.map (· / "versions")

/-- The version of an installation: its name, if that starts with a digit and is a version. -/
def versionOf (s : Surroundings) (name : String) (home executable : Path) : Version :=
  match Version.parse name, name.toList.head?.any Char.isDigit with
  | some v, true => v
  | _, _ => s.versionHint home executable

/-- The record of an installation with an interpreter. One of conda stays one of conda. -/
def recordOf (s : Surroundings) (home : Path) : Option EnvRecord := do
  let executable ← s.fs.findInterpreter home
  let name ← home.fileName?.map Text.shown
  some { EnvRecord.new executable ((Classify.conda s.fs ⟨executable, some home⟩).getD .pyenv) with
    name := name
    location := some home
    version := versionOf s name home executable
    sources := .ofList [.pyenv] }

/-- All installations. -/
def list (s : Surroundings) : List EnvRecord :=
  match versionsDir s.host with
  | none => []
  | some dir => (s.fs.listDir dir).filterMap (recordOf s)

/-- The installation of an executable. -/
def resolve (s : Surroundings) (executable : Path) : Option EnvRecord := do
  let dir ← versionsDir s.host
  let home ← executable.homeOf?
  let parent ← home.parent?
  if parent.samePlace dir then
    (recordOf s home).map fun e =>
      { e with executable := { e.executable with filename := executable } }
  else none

end Pyenv

/-! ### Directories of programs -/

/-- The record of an executable, if it is an interpreter in one of the directories. -/
def Surroundings.resolveGlobal (s : Surroundings) (dirs known : List Path) (source : EnvSource)
    (executable : Path) : Option EnvRecord := do
  let parent ← executable.parent?
  if executable.isPythonPath && dirs.any (·.samePlace parent) && s.fs.isFile executable then
    some (s.globalRecord executable known source)
  else none

namespace KnownPaths

/-- The directories that are searched: the known ones, and the extra ones that are new. -/
def dirs (extra : List Path) : List Path :=
  Path.addNew knownDirs extra

/-- All interpreters in the directories. -/
def list (s : Surroundings) (extra : List Path) : List EnvRecord :=
  s.globalRecords (dirs extra) (dirs extra) .knownPath

/-- The record of an executable in one of the directories. -/
def resolve (s : Surroundings) (extra : List Path) (executable : Path) : Option EnvRecord :=
  s.resolveGlobal (dirs extra) (dirs extra) .knownPath executable

end KnownPaths

namespace SearchPath

/-- All interpreters on the search path. -/
def list (s : Surroundings) : List EnvRecord :=
  s.globalRecords s.host.searchPath knownDirs .pathEnvVar

/-- The record of an executable on the search path. -/
def resolve (s : Surroundings) (executable : Path) : Option EnvRecord :=
  s.resolveGlobal s.host.searchPath knownDirs .pathEnvVar executable

end SearchPath

/-! ### Workspace roots -/

namespace RootVirtualEnvs

/-- The folders of a root that are searched. -/
def searchDirs (root : Path) : List Path :=
  [root, root / ".direnv"]

/-- All environments of a root. -/
def list (s : Surroundings) (root : Path) : List EnvRecord :=
  (searchDirs root).flatMap fun dir => s.recordsIn dir .virtualEnv .workspaceVirtualEnv (some root)

/-- The environment of an executable, if its home is in one of the folders of the root. -/
def resolve (s : Surroundings) (root executable : Path) : Option EnvRecord := do
  let home ← executable.homeOf?
  let parent ← home.parent?
  if (searchDirs root).any (·.samePlace parent) && s.fs.isFile executable then
    some { s.recordOfHome home executable .virtualEnv .workspaceVirtualEnv with
      searchLocation := some root }
  else none

end RootVirtualEnvs

end EnvDiscovery
