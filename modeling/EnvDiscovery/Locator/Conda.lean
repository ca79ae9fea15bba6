import EnvDiscovery.Environment.Codec
import EnvDiscovery.Json.Record
import EnvDiscovery.Locator.Machine

/-!
**Environments that conda reports.**

Main definitions:
* `CondaInfo`, `CondaInfo.parse` — the report of `conda info --json`;
* `CondaInfo.homes` — the homes of all environments, the base first;
* `Conda.find` — where the program is;
* `Conda.list`, `Conda.resolve` — environments.
-/

namespace EnvDiscovery

/-- What is read of the report of `conda info --json`. -/
structure CondaInfo where
  envs : List Path
  defaultPrefix : Option Path
  rootPrefix : Option Path
  envsDirs : List Path
  condaVersion : Option String
deriving DecidableEq, Repr

namespace CondaInfo

/-- The fields of the report, in order. -/
def fieldNames : List String :=
  ["envs", "default_prefix", "root_prefix", "envs_dirs", "conda_version"]

/-- A list of paths. -/
def pathsOf? : Json → Option (List Path) :=
  Json.asList? Path.ofJson?

/-- The report in a text. -/
def parse (stdout : String) : Option CondaInfo := do
  let r ← Json.readRecord? fieldNames (Text.trimChars stdout.toList)
  let envs ← Json.defaulted [] pathsOf? (r.find "envs" 0)
  let defaultPrefix ← Json.defaulted none (Json.nullable Path.ofJson?) (r.find "default_prefix" 1)
  let rootPrefix ← Json.defaulted none (Json.nullable Path.ofJson?) (r.find "root_prefix" 2)
  let envsDirs ← Json.defaulted [] pathsOf? (r.find "envs_dirs" 3)
  let condaVersion ← Json.defaulted none (Json.nullable Json.asString?) (r.find "conda_version" 4)
  some ⟨envs, defaultPrefix, rootPrefix, envsDirs, condaVersion⟩

/-- The home of the base installation. -/
def base (i : CondaInfo) : Option Path :=
  i.rootPrefix <|> i.defaultPrefix

/-- The homes of all environments, the base first, each place once. -/
def homes (i : CondaInfo) : List Path :=
  Path.distinct (i.base.toList ++ i.envs)

end CondaInfo

namespace Conda

/-- The distributor of the interpreters. -/
def organization : String := "ContinuumAnalytics"

/-- The name of the base environment. -/
def baseName : String := "base"

/-- Where installations usually are. -/
def usualInstalls (host : Host) : List Path :=
  let ofUser := match host.home with
    | none => []
    | some h =>
      ["anaconda3", "miniconda3", "miniforge3", "mambaforge", "anaconda", "miniconda"].map (h / ·)
  let ofSystem : List Path := [⟨"/opt/conda"⟩, ⟨"/opt/anaconda3"⟩, ⟨"/opt/miniconda3"⟩,
    ⟨"/usr/local/anaconda3"⟩, ⟨"/usr/local/miniconda3"⟩]
  (ofUser ++ ofSystem).map (· / "bin/conda")

/-- A file that exists. -/
def existing (m : Machine) (p : Option Path) : Option Path :=
  p.filter m.fs.isFile

/-- The program: as configured, as the variable `CONDA_EXE` says, on the search path, or in a usual
place. -/
def find (m : Machine) (configured : Option Path) : Option Path :=
  existing m configured
    <|> existing m ((m.host.var "CONDA_EXE").map Path.mk)
    <|> (m.host.var "PATH").bind (fun _ => m.program "conda")
    <|> (usualInstalls m.host).find? m.fs.isFile

/-- The report of the program, if there is one. -/
def info (m : Machine) (configured : Option Path) : Traced (Option CondaInfo) := do
  match find m configured with
  | none => return none
  | some conda =>
    match ← m.run conda ["info", "--json"] with
    | .ok output => return CondaInfo.parse output.text
    | .error _ => return none

/-- The record of an environment, given the home of the base. -/
def recordOf (s : Surroundings) (base : Option Path) (home : Path) : EnvRecord :=
  let isBase := base.any (·.samePlace home)
  let executable := home.condaInterpreterIn
  { EnvRecord.new executable (if isBase then .condaBase else .conda) with
    name := if isBase then baseName else home.environmentName
    location := some home
    version := s.versionHint home executable
    distro := ⟨some organization, none⟩
    sources := .ofList [.conda] }

/-- The environments of a report. -/
def records (s : Surroundings) (i : CondaInfo) : List EnvRecord :=
  i.homes.map (recordOf s i.base)

/-- All environments, and the report they come from. -/
def list (m : Machine) (configured : Option Path) : Traced (List EnvRecord × Option CondaInfo) := do
  match ← info m configured with
  | none => return ([], none)
  | some i => return (records m.toSurroundings i, some i)

/-- The environment of an executable, if its home is one of conda. -/
def resolve (s : Surroundings) (executable : Path) : Option EnvRecord := do
  let kind ← Classify.conda s.fs (.ofExecutable executable)
  let home ← executable.homeOf?
  let e := recordOf s (if kind = .condaBase then some home else none) home
  some { e with executable := { e.executable with filename := executable } }

end Conda

end EnvDiscovery
