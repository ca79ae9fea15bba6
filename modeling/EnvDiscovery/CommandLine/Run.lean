import EnvDiscovery.CommandLine.Grammar
import EnvDiscovery.Config.Load
import EnvDiscovery.Discovery.Setup
import EnvDiscovery.Script.Programs
import EnvDiscovery.Store.Disk

/-!
**Carrying out a command line.**

Main definitions:
* `Workplace` — the disk and the surroundings in which the program is run;
* `RunReport` — the exit code and the texts that a run leaves;
* `Workplace.run` — carrying out a command line.
-/

namespace EnvDiscovery

/-- The disk and the surroundings in which the program is run; `directory` is the one it is run
in. -/
structure Workplace where
  disk : Disk
  host : Host
  directory : Path
  now : Timestamp

/-- The exit code and the texts that a run leaves. -/
structure RunReport where
  code : Nat
  output : String
  errors : String
deriving DecidableEq, Repr

/-- A run that only writes. -/
def RunReport.ofOutput (output : String) : RunReport := ⟨0, output, ""⟩

/-! ### Texts -/

/-- The lines that describe an interpreter. -/
def Listing.Entry.lines (x : Listing.Entry) : List String :=
  [x.displayName, "  path:    " ++ x.path.shown, "  type:    " ++ x.category.name] ++
    x.version.toList.map ("  version: " ++ ·) ++
    x.sysPrefix.toList.map fun p => "  prefix:  " ++ p.shown

/-- Lines as a text. -/
def linesText (ls : List String) : String :=
  String.join (ls.map (· ++ "\n"))

/-- The text of a listing. -/
def listingText (json : Bool) (es : List Listing.Entry) : String :=
  if json then (Json.arr (es.map (·.toJson))).pretty ++ "\n"
  else if es.isEmpty then "No Python interpreters found\n"
  else linesText (es.flatMap (·.lines))

/-- The text of one interpreter. -/
def entryText (json : Bool) (e : Listing.Entry) : String :=
  if json then e.toJson.pretty ++ "\n" else linesText e.lines

/-- The text about the cache. -/
def cacheText (s : OpenStore) : CacheAction → String
  | .clear =>
    "Removed " ++ Text.decimal s.store.clear.1 ++ " cached entries from " ++ location ++ "\n"
  | .info => linesText ["Cache directory: " ++ location,
      "Schema version:  " ++ Text.decimal CacheDirectory.schemaVersion,
      "Entries:         " ++ Text.decimal s.store.size]
where
  /-- Where the store is kept. -/
  location : String := (s.directory.map (·.shown)).getD "<memory>"

/-! ### Runs -/

namespace Workplace

/-- A path seen from the directory of the run. -/
def absolute (w : Workplace) (p : Path) : Path :=
  if p.isAbsolute then p else w.directory.join p

/-- The machine of the workplace. -/
def machine (w : Workplace) : Machine :=
  let fs := w.disk.tree.fileSystem
  { fs := fs
    host := w.host
    executor := Programs.executor fs w.host
    program := Programs.find fs w.host
    timeout := defaultTimeout }

/-- Opens the store that a configuration asks for. -/
def openStore (w : Workplace) (c : Config) : Workplace × OpenStore :=
  let (disk, s) := w.disk.openStore (c.cacheDir <|> CacheDirectory.default w.host)
  ({ w with disk := disk }, s)

/-- Keeps what is in an open store. -/
def save (w : Workplace) (s : OpenStore) : Workplace :=
  { w with disk := w.disk.save s }

/-- Makes the links that calls make, seen from the directory of the run. -/
def link (w : Workplace) (calls : List Call) : Workplace :=
  let links := calls.flatMap (Programs.links w.machine.fs w.host)
  { w with
    disk.tree := links.foldl (fun t (name, target) => t.link (w.absolute ⟨name⟩) target)
      w.disk.tree }

/-- Runs an action of the discovery that a configuration asks for; none if the configuration cannot
be used. The links that programs make on the way are seen by later runs only. -/
def discover {α : Type} (w : Workplace) (c : Config) (folders : List Path) (action : SessionM α) :
    Option (α × Workplace) :=
  let (w, s) := w.openStore c
  let roots := folders.map w.absolute
  (Session.ofConfig c w.machine none w.now s.store (.new false []) roots).map fun session =>
    let (a, session) := action.run session
    (a, (w.save { s with store := session.store }).link session.calls)

/-- The report on one interpreter. -/
def resolved (path : Path) (json : Bool) : Option Listing.Entry → RunReport
  | some e => .ofOutput (entryText json e)
  | none => ⟨3, "", path.shown ++ " is not a usable Python interpreter\n"⟩

/-- Inspects or clears the cache. -/
def cache (w : Workplace) (c : Config) (action : CacheAction) : RunReport × Workplace :=
  let (w, s) := w.openStore c
  let after := match action with
    | .clear => { s with store := s.store.clear.2 }
    | .info => s
  (.ofOutput (cacheText s action), w.save after)

/-- Carries out a subcommand; none if the configuration cannot be used. Watching and completions
leave no report of their own. -/
def perform (w : Workplace) (c : Config) :
    Subcommand → Option (Except Failure RunReport × Workplace)
  | .list roots sources resource json =>
    (w.discover c roots (Session.interpreters (resource.map w.absolute) false
      (if sources.isEmpty then none else some sources))).map fun (es, w) =>
        (.ok (.ofOutput (listingText json es)), w)
  | .resolve path json =>
    (w.discover c [] (Session.details (w.absolute path))).map fun (r, w) =>
      match r with
      | .ok e => (.ok (resolved (w.absolute path) json e), w)
      | .error f => (.error (.process f), w)
  | .watch roots =>
    (w.discover c roots (Session.environments .all)).map fun (_, w) => (.ok (.ofOutput ""), w)
  | .cache action =>
    let (r, w) := w.cache c action
    some (.ok r, w)
  | .generateCompletion _ => some (.ok (.ofOutput ""), w)

/-- The failure of asking for more and for less output. -/
def conflict : Failure :=
  .usage (.conflictingArguments "--verbose" "--quiet"
    "Use either --verbose for more output or --quiet for less output, but not both")

/-- Carries out a command line; none if the configuration cannot be used. -/
def run (w : Workplace) (c : CommandLine) : Option (Except Failure RunReport × Workplace) :=
  if c.options.verbose && c.options.quiet then some (.error conflict, w)
  else
    match c.command with
    | .generateCompletion _ => some (.ok (.ofOutput ""), w)
    | command =>
      match Config.load w.disk.tree.fileSystem w.host c.options.config with
      | .error f => some (.error (.config f), w)
      | .ok config => w.perform config command

end Workplace

end EnvDiscovery
