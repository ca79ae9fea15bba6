import EnvDiscovery.Locator.Machine
import EnvDiscovery.Text.Lines

/-!
**Interpreters in the registry.**

Main definitions:
* `Registry.Query` — a key in a hive, seen in a 32-bit or 64-bit view;
* `Registry.parseKeys`, `Registry.parseValues` — reading the listings of `reg query`;
* `Registry.Reader` — access to keys and values, which may fail query by query;
* `Registry.installs` — all installations, the first for each executable;
* `Registry.list` — their records.
-/

namespace EnvDiscovery.Registry

/-- The two parts of the registry that are searched. -/
inductive Hive where
  | localMachine
  | currentUser
deriving DecidableEq, Repr

/-- The short name of a hive. -/
def Hive.short : Hive → String
  | localMachine => "HKLM"
  | currentUser => "HKCU"

/-- The full name of a hive. -/
def Hive.full : Hive → String
  | localMachine => "HKEY_LOCAL_MACHINE"
  | currentUser => "HKEY_CURRENT_USER"

/-- The views of the registry. -/
inductive View where
  | x86
  | x64
deriving DecidableEq, Repr

/-- The argument that selects a view. -/
def View.flag : View → String
  | x86 => "/reg:32"
  | x64 => "/reg:64"

/-- A key of the registry. -/
structure Query where
  hive : Hive
  view : View
  key : String
deriving DecidableEq, Repr

/-- A key below another. -/
def Query.child (q : Query) (name : String) : Query :=
  { q with key := q.key ++ "\\" ++ name }

/-- The key with the short name of its hive. -/
def Query.text (q : Query) : String :=
  q.hive.short ++ "\\" ++ q.key

/-- The key with the full name of its hive. -/
def Query.fullText (q : Query) : String :=
  q.hive.full ++ "\\" ++ q.key

/-- A named value; the default value has the empty name. -/
structure Value where
  name : String
  value : String
deriving DecidableEq, Repr

/-! ### Listings -/

/-- What follows the last backslash. -/
def lastPart (s : String) : String :=
  String.ofList (s.toList.reverse.takeWhile (· != '\\')).reverse

/-- The names of the keys below the one asked for. -/
def parseKeys (q : Query) (output : String) : List String :=
  let own := Text.asciiLower q.fullText
  (((Text.lines output).map Text.trimEnd).filter fun line =>
    Text.startsWith "HKEY_" line && Text.asciiLower line != own).map lastPart

/-- The space between the columns of a listing. -/
def gap : List Char := List.replicate 4 ' '

/-- Whether a character may stand in the name of a type after `REG_`. -/
def isTypeChar (c : Char) : Bool :=
  c.isUpper || c == '_'

/-- The data of a value, given what follows the gap after its name: a type, then nothing or a gap
and the data. -/
def data? (cs : List Char) : Option (List Char) :=
  match Text.afterStart? "REG_".toList cs with
  | none => none
  | some rest =>
    match rest.takeWhile isTypeChar, rest.dropWhile isTypeChar with
    | [], _ => none
    | _, [] => some []
    | _, rest => (Text.afterStart? gap rest).filter fun d => !d.contains '\n'

/-- The name and data of a value line after its indentation. The name ends at the first gap that a
type follows. -/
def splitValue : List Char → Option (List Char × List Char)
  | [] => none
  | c :: cs =>
    match (Text.afterStart? gap (c :: cs)).bind data? with
    | some d => some ([], d)
    | none => if c == '\n' then none else (splitValue cs).map fun (n, d) => (c :: n, d)

/-- The value on a line, if the line shows one. -/
def parseValue (line : List Char) : Option Value := do
  let body ← Text.afterStart? gap line
  let (name, data) ← splitValue body
  let name := String.ofList name
  some ⟨if name == "(Default)" then "" else name, Text.trimEnd (String.ofList data)⟩

/-- The values of the key asked for. -/
def parseValues (output : String) : List Value :=
  (Text.linesOf output.toList).filterMap fun line =>
    parseValue (Text.dropEndWhile (fun c => c == '\r' || c == '\n') line)

/-! ### Access -/

/-- Access to the registry. A query may fail. -/
structure Reader where
  keys : Query → Traced (Option (List String))
  values : Query → Traced (Option (List Value))

/-- What `reg query` prints for a key; nothing if it ends with an error, as for a missing key. -/
def queryOutput (m : Machine) (q : Query) : Traced (Option String) := do
  match ← m.run ⟨"reg"⟩ ["query", q.text, q.view.flag] with
  | .ok output => return some output.text
  | .error (.executionFailed _ _ _) => return some ""
  | .error _ => return none

/-- Access through the program `reg`. -/
def programReader (m : Machine) : Reader where
  keys q := do return (← queryOutput m q).map (parseKeys q)
  values q := do return (← queryOutput m q).map parseValues

/-! ### Installations -/

/-- An installation under `SOFTWARE\Python\company\tag`. -/
structure Install where
  company : String
  tag : String
  executable : Path
  displayName : Option String
  sysVersion : Option String
  version : Option String
  sysArchitecture : Option String
deriving DecidableEq, Repr

/-- The first value of a name, in any case, if it is not empty. -/
def valueNamed (values : List Value) (name : String) : Option String :=
  ((values.find? fun v => Text.eqIgnoreCase v.name name).map (·.value)).filter (!·.isEmpty)

/-- The executable that the values of the key `InstallPath` give. -/
def executableOf (installPath : List Value) : Option Path :=
  match valueNamed installPath "ExecutablePath" with
  | some p => some ⟨p⟩
  | none => (valueNamed installPath "").map fun dir => (⟨dir⟩ : Path) / "python.exe"

/-- The installation with the given values. -/
def installOf (company tag : String) (info installPath : List Value) : Option Install :=
  (executableOf installPath).map fun executable =>
    { company := company
      tag := tag
      executable := executable
      displayName := valueNamed info "DisplayName"
      sysVersion := valueNamed info "SysVersion"
      version := valueNamed info "Version"
      sysArchitecture := valueNamed info "SysArchitecture" }

/-- The installation of a key, if its two reads succeed and give an executable. -/
def readInstall (r : Reader) (company : String) (key : Query) : Traced (Option Install) := do
  match ← r.values key with
  | none => return none
  | some info =>
    match ← r.values (key.child "InstallPath") with
    | none => return none
    | some installPath => return installOf company (lastPart key.key) info installPath

/-- The results for each element in turn, joined. -/
def gather {α β : Type} (f : α → Traced (List β)) : List α → Traced (List β)
  | [] => return []
  | a :: rest => do
    let bs ← f a
    let more ← gather f rest
    return bs ++ more

/-- The installations of a company. -/
def companyInstalls (r : Reader) (root : Query) (company : String) : Traced (List Install) := do
  match ← r.keys (root.child company) with
  | none => return []
  | some tags =>
    gather (fun tag => do
      return (← readInstall r company ((root.child company).child tag)).toList) tags

/-- The key below which companies are listed. -/
def pythonKey : String := "SOFTWARE\\Python"

/-- The company that is passed over. -/
def launcher : String := "PyLauncher"

/-- The installations of all companies in one view of a hive. -/
def viewInstalls (r : Reader) (hive : Hive) (view : View) : Traced (List Install) := do
  let root : Query := ⟨hive, view, pythonKey⟩
  match ← r.keys root with
  | none => return []
  | some companies => gather (companyInstalls r root) (companies.filter (· != launcher))

/-- The hives and views, in the order of search. -/
def places : List (Hive × View) :=
  [(.localMachine, .x86), (.localMachine, .x64), (.currentUser, .x86), (.currentUser, .x64)]

/-- The first installation for each executable. -/
def firstPerExecutable (installs : List Install) : List Install :=
  installs.foldl (fun kept i =>
    if kept.any (·.executable.samePlace i.executable) then kept else kept ++ [i]) []

/-- All installations. -/
def installs (r : Reader) : Traced (List Install) := do
  return firstPerExecutable (← gather (fun (hive, view) => viewInstalls r hive view) places)

/-- The better of the versions that an installation states. -/
def versionOf (i : Install) : Version :=
  match i.version.bind Version.parse, i.sysVersion.bind Version.parse with
  | some a, some b => a.moreComplete b
  | some v, none | none, some v => v
  | none, none => .unknown

/-- The record of an installation. -/
def recordOf (s : Surroundings) (i : Install) : EnvRecord :=
  let candidate := Candidate.ofExecutable i.executable
  let kind := Classify.classify s.fs s.host candidate .otherGlobal
  { EnvRecord.new i.executable kind with
    version := versionOf i
    arch := (i.sysArchitecture.map Architecture.parse).getD .unknown
    distro := ⟨some i.company, i.displayName⟩
    location := if kind.isVirtual then candidate.home else none
    sources := .ofList [.windowsRegistry] }

/-- The records of all installations. -/
def list (s : Surroundings) (r : Reader) : Traced (List EnvRecord) := do
  return (← installs r).map (recordOf s)

end EnvDiscovery.Registry
