import EnvDiscovery.Classify
import EnvDiscovery.Environment.Record
import EnvDiscovery.Process
import EnvDiscovery.Version.Reader

/-!
**Records from folders and files.**

Main definitions:
* `Surroundings` — the file system and the user's surroundings that a search looks at;
* `Surroundings.versionHint` — the version that files show without running anything;
* `Surroundings.recordOfHome`, `Surroundings.recordsIn` — environments that are folders;
* `Surroundings.globalRecord` — an interpreter in a directory of programs.
-/

namespace EnvDiscovery

/-- What a search of folders looks at. -/
structure Surroundings where
  fs : FileSystem
  host : Host

/-- The version in the last name of an executable. -/
def Version.ofExecutable (executable : Path) : Version :=
  (executable.fileName?.bind Version.ofExecutableName).getD .unknown

namespace Surroundings

/-- The version in the file `pyvenv.cfg` of an environment. -/
def configVersion (s : Surroundings) (home : Path) : Option Version :=
  (s.fs.readText (home / "pyvenv.cfg")).bind Version.ofEnvironmentConfig

/-- The version in the first package record of an interpreter. -/
def packageVersion (s : Surroundings) (home : Path) : Option Version :=
  (s.fs.listDir (home / "conda-meta")).findSome? fun entry =>
    entry.fileName?.bind Version.ofPackageRecord

/-- The version that files show: the configuration of the environment, then its package records,
then the name of the executable. -/
def versionHint (s : Surroundings) (home executable : Path) : Version :=
  match s.configVersion home with
  | some v => v
  | none =>
    match s.packageVersion home with
    | some v => v
    | none => Version.ofExecutable executable

/-- The record of an environment that is a folder. -/
def recordOfHome (s : Surroundings) (home executable : Path) (fallback : EnvKind)
    (source : EnvSource) : EnvRecord :=
  { EnvRecord.new executable (Classify.classify s.fs s.host ⟨executable, some home⟩ fallback) with
    name := home.environmentName
    location := some home
    version := s.versionHint home executable
    sources := .ofList [source] }

/-- The record of a folder, if it is an environment with an interpreter. -/
def recordOfFolder (s : Surroundings) (fallback : EnvKind) (source : EnvSource)
    (searchLocation : Option Path) (home : Path) : Option EnvRecord :=
  if s.fs.isDir home then
    (s.fs.findInterpreter home).map fun executable =>
      { s.recordOfHome home executable fallback source with searchLocation := searchLocation }
  else none

/-- The environments among the entries of a directory. -/
def recordsIn (s : Surroundings) (dir : Path) (fallback : EnvKind) (source : EnvSource)
    (searchLocation : Option Path) : List EnvRecord :=
  (s.fs.listDir dir).filterMap (s.recordOfFolder fallback source searchLocation)

end Surroundings

/-! ### Interpreters in directories of programs -/

/-- The directories where systems keep their programs. -/
def knownDirs : List Path :=
  [⟨"/usr/local/bin"⟩, ⟨"/usr/bin"⟩, ⟨"/bin"⟩, ⟨"/opt/homebrew/bin"⟩, ⟨"/opt/local/bin"⟩]

/-- The kind of an interpreter that belongs to no environment. -/
def globalKind (executable : Path) (known : List Path) : EnvKind :=
  if executable.parent?.any fun dir => known.any (·.samePlace dir) then .system else .otherGlobal

/-- The record of an interpreter in a directory of programs. -/
def Surroundings.globalRecord (s : Surroundings) (executable : Path) (known : List Path)
    (source : EnvSource) : EnvRecord :=
  let candidate := Candidate.ofExecutable executable
  let kind := (Classify.identify s.fs s.host candidate).getD (globalKind executable known)
  let e : EnvRecord :=
    { EnvRecord.new executable kind with
      version := Version.ofExecutable executable
      sources := .ofList [source] }
  match kind.isVirtual, candidate.home with
  | true, some home => { e with name := home.environmentName, location := some home }
  | _, _ => e

/-- The records of all interpreters in some directories of programs. -/
def Surroundings.globalRecords (s : Surroundings) (dirs known : List Path) (source : EnvSource) :
    List EnvRecord :=
  dirs.flatMap fun dir => (s.fs.pythonExecutables dir).map (s.globalRecord · known source)

end EnvDiscovery
