import EnvDiscovery.Event.Change
import EnvDiscovery.Locator.Conda
import EnvDiscovery.Locator.Folders
import EnvDiscovery.Locator.Query
import EnvDiscovery.Locator.Registry

/-!
**Sources of environments.**

Main definitions:
* `Locator` — the sources that discovery knows;
* `Locator.list` — everything a source finds on a machine;
* `Locator.isQuiet`, `Locator.found` — sources that find their records by looking at files alone;
* `Locator.resolve` — the record of one executable that the source recognises;
* `Locator.watchTargets` — the directories that a source wants to be watched.
-/

namespace EnvDiscovery

/-- A source of another kind, given by what it does. It lists records and breaks off before that of
number `breaksAt`, recognises executables in its own way, and reports changes if it says so. -/
structure FixedSource where
  records : List EnvRecord
  breaksAt : Option Nat
  recognises : Path → Option EnvRecord
  reports : Bool

/-- Recognises the executables of some records. -/
def FixedSource.among (records : List EnvRecord) (executable : Path) : Option EnvRecord :=
  records.find? (·.path.sameComponents executable)

/-- A source of environments. -/
inductive Locator where
  | conda (program : Option Path)
  | globalVirtualEnvs (extra : List Path)
  | pyenv
  | knownPaths (extra : List Path)
  | searchPath
  | rootVirtualEnvs (root : Path)
  | registry (reader : Option Registry.Reader)
  | fixed (source : FixedSource)

/-- What a source found: records in order, whether it broke off after them, and the report of conda
that they come from. -/
structure Found where
  records : List EnvRecord
  breaksOff : Bool
  report : Option CondaInfo

namespace Found

/-- Records alone. -/
def ofRecords (records : List EnvRecord) : Found := ⟨records, false, none⟩

/-- Whether the source broke off before it gave anything. -/
def breaksAtOnce (f : Found) : Bool :=
  f.breaksOff && f.records.isEmpty

/-- The records in order, and a gap where the source broke off. -/
def items (f : Found) : List (Option EnvRecord) :=
  f.records.map some ++ (if f.breaksOff then [none] else [])

end Found

/-- What a fixed source gives before it ends or breaks off. -/
def FixedSource.found (s : FixedSource) : Found :=
  match s.breaksAt with
  | none => .ofRecords s.records
  | some n =>
    if n ≤ s.records.length then ⟨s.records.take n, true, none⟩ else .ofRecords s.records

/-- The kind and directory of a watch, and what a change there means. -/
structure WatchTarget where
  dir : Path
  pattern : String
  event : EnvChange
deriving DecidableEq

namespace Locator

/-- The name of a source. -/
def name : Locator → String
  | conda _ => "conda"
  | globalVirtualEnvs _ => "global-virtual-env"
  | pyenv => "pyenv"
  | knownPaths _ => "known-paths"
  | searchPath => "current-path"
  | rootVirtualEnvs _ => "workspace-virtual-env"
  | registry _ => "windows-registry"
  | fixed _ => "stub"

/-- Everything a source finds on a machine. -/
def list (m : Machine) : Locator → Traced Found
  | conda program => do
    let (records, report) ← Conda.list m program
    return ⟨records, false, report⟩
  | globalVirtualEnvs extra => return .ofRecords (GlobalVirtualEnvs.list m.toSurroundings extra)
  | pyenv => return .ofRecords (Pyenv.list m.toSurroundings)
  | knownPaths extra => return .ofRecords (KnownPaths.list m.toSurroundings extra)
  | searchPath => return .ofRecords (SearchPath.list m.toSurroundings)
  | rootVirtualEnvs root => return .ofRecords (RootVirtualEnvs.list m.toSurroundings root)
  | registry reader => do
    return .ofRecords (← Registry.list m.toSurroundings (reader.getD (Registry.programReader m)))
  | fixed source => return source.found

/-- Whether a source runs no program. -/
def isQuiet : Locator → Bool
  | conda _ | registry _ => false
  | globalVirtualEnvs _ | pyenv | knownPaths _ | searchPath | rootVirtualEnvs _ | fixed _ => true

/-- What a quiet source finds; a source that runs programs finds nothing without them. -/
def found (s : Surroundings) : Locator → Found
  | globalVirtualEnvs extra => .ofRecords (GlobalVirtualEnvs.list s extra)
  | pyenv => .ofRecords (Pyenv.list s)
  | knownPaths extra => .ofRecords (KnownPaths.list s extra)
  | searchPath => .ofRecords (SearchPath.list s)
  | rootVirtualEnvs root => .ofRecords (RootVirtualEnvs.list s root)
  | fixed source => source.found
  | conda _ | registry _ => .ofRecords []

theorem list_of_isQuiet (m : Machine) {l : Locator} (h : l.isQuiet = true) :
    l.list m = Traced.pure (l.found m.toSurroundings) := by
  cases l with
  | conda | registry => cases h
  | globalVirtualEnvs | pyenv | knownPaths | searchPath | rootVirtualEnvs | fixed => rfl

/-- The record of an executable, if the source recognises it. -/
def resolve (s : Surroundings) (executable : Path) : Locator → Option EnvRecord
  | conda _ => Conda.resolve s executable
  | globalVirtualEnvs extra => GlobalVirtualEnvs.resolve s extra executable
  | pyenv => Pyenv.resolve s executable
  | knownPaths extra => KnownPaths.resolve s extra executable
  | searchPath => SearchPath.resolve s executable
  | rootVirtualEnvs root => RootVirtualEnvs.resolve s root executable
  | registry _ => none
  | fixed source => source.recognises executable

/-- Whether a source ever reports changes. -/
def reportsChanges : Locator → Bool
  | conda _ | globalVirtualEnvs _ | pyenv | rootVirtualEnvs _ => true
  | knownPaths _ | searchPath | registry _ => false
  | fixed source => source.reports

/-- The pattern of interpreters in the environments of a folder. -/
def interpreterPattern : String := "*/bin/python*"

/-- The change that a folder of conda environments means. -/
def condaTarget (dir : Path) (pattern : String) : WatchTarget :=
  ⟨dir, pattern, .ofKind (some .conda)⟩

/-- The directories that a source wants to be watched, apart from the folders that conda reports. -/
def watchTargets (host : Host) : Locator → List WatchTarget
  | conda _ => host.home.toList.map fun home => condaTarget (home / ".conda") "environments.txt"
  | globalVirtualEnvs extra =>
    (GlobalVirtualEnvs.folders host extra).map (⟨·, interpreterPattern, .anything⟩)
  | pyenv => (Pyenv.versionsDir host).toList.map (⟨·, "*", .ofKind (some .pyenv)⟩)
  | rootVirtualEnvs root =>
    (RootVirtualEnvs.searchDirs root).map (⟨·, interpreterPattern, .ofLocation root⟩)
  | knownPaths _ | searchPath | registry _ | fixed _ => []

end Locator

end EnvDiscovery
