import EnvDiscovery.Config.Basic
import EnvDiscovery.Text.Ascii
import EnvDiscovery.Yaml.Document

/-!
**Reading a configuration.**

Main definitions:
* `Yaml.Document.text?`, `Yaml.Document.flag?`, `Yaml.Document.number?`, `Yaml.Document.optional?`,
  `Yaml.Document.texts?` — values of nodes;
* `Yaml.Document.fields?` — the fields of a mapping;
* `Config.ofDocument?` — the settings in a document;
* `Config.ofYaml` — the valid configuration in a text.
-/

namespace EnvDiscovery

namespace Yaml

/-- Whether a scalar stands for nothing. -/
def isNullText (s : String) : Bool :=
  ["null", "Null", "NULL", "~"].contains s

/-- The truth value that a text stands for. -/
def boolOfText? (s : String) : Option Bool :=
  if ["true", "True", "TRUE"].contains s then some true
  else if ["false", "False", "FALSE"].contains s then some false
  else none

/-- The value of a digit in a base. -/
def digitIn? (base : Nat) (c : Char) : Option Nat :=
  (Text.hexValue? c).filter (· < base)

/-- The value of digits in a base, of which there is at least one. -/
def natInBase? (base : Nat) : List Char → Option Nat
  | [] => none
  | cs => cs.foldl (fun n c => do return (← n) * base + (← digitIn? base c)) (some 0)

/-- The number that a text stands for: decimal without leading zeros, or in another base after a
mark; a plus sign may stand before it. -/
def natOfText? (s : String) : Option Nat :=
  let cs := match s.toList with
    | '+' :: cs => cs
    | cs => cs
  match cs with
  | '0' :: 'x' :: digits => natInBase? 16 digits
  | '0' :: 'o' :: digits => natInBase? 8 digits
  | '0' :: 'b' :: digits => natInBase? 2 digits
  | '0' :: _ :: _ => none
  | cs => natInBase? 10 cs

/-- The full name of a usual tag. -/
def usualTag (name : String) : String := "tag:yaml.org,2002:" ++ name

/-- Whether a scalar may be read as more than a text: it is plain, or literal with the given tag. -/
def Scalar.isTyped (s : Scalar) (name : String) : Bool :=
  s.style = .plain || (s.style = .literal && s.tag = some (usualTag name))

/-- Whether a scalar is plain and empty. -/
def Scalar.isEmptyPlain (s : Scalar) : Bool :=
  s.style = .plain && s.text.isEmpty

namespace Document

/-- The scalar that a node is or refers to. -/
def scalar? (d : Document) (n : LinkedNode) : Option Scalar :=
  match d.target n with
  | some (.scalar _ s) => some s
  | _ => none

/-- The text of a scalar. -/
def text? (d : Document) (n : LinkedNode) : Option String :=
  (d.scalar? n).map (·.text)

/-- The truth value of a scalar. -/
def flag? (d : Document) (n : LinkedNode) : Option Bool :=
  ((d.scalar? n).filter (·.isTyped "bool")).bind fun s => boolOfText? s.text

/-- The number of a scalar, if it fits a word of 64 bits. -/
def number? (d : Document) (n : LinkedNode) : Option UInt64 :=
  (((d.scalar? n).filter (·.isTyped "int")).bind fun s => natOfText? s.text).bind fun k =>
    if k < UInt64.size then some (UInt64.ofNat k) else none

/-- Whether a plain scalar stands for nothing; no answer if its tag says so and its text does
not. -/
def isNull? (s : Scalar) : Option Bool :=
  if s.style != .plain then some false
  else
    match s.tag with
    | some tag =>
      if tag != usualTag "null" then some false else if isNullText s.text then some true else none
    | none => some (s.text.isEmpty || isNullText s.text)

/-- A value that may be missing. -/
def optional? {α : Type} (d : Document) (read : LinkedNode → Option α) (n : LinkedNode) :
    Option (Option α) :=
  match d.target n with
  | none => none
  | some (.scalar anchor s) =>
    match isNull? s with
    | none => none
    | some true => some none
    | some false => (read (.scalar anchor s)).map some
  | some n => (read n).map some

/-- The texts of a sequence; an empty scalar is an empty sequence. -/
def texts? (d : Document) (n : LinkedNode) : Option (List String) :=
  match d.target n with
  | some (.sequence _ items) => items.mapM d.text?
  | some (.scalar _ s) => if s.isEmptyPlain then some [] else none
  | _ => none

/-- The fields of a mapping; an empty scalar is an empty mapping. -/
def fields? (d : Document) (n : LinkedNode) : Option (List (String × LinkedNode)) :=
  match d.target n with
  | some (.mapping _ entries) =>
    entries.mapM fun (k, v) => (d.text? k).map (·, v)
  | some (.scalar _ s) => if s.isEmptyPlain then some [] else none
  | _ => none

end Document

/-- The value of a field, or a default if there is no such field; a field may not be given twice. -/
def field {α : Type} (fields : List (String × LinkedNode)) (name : String) (default : α)
    (read : LinkedNode → Option α) : Option α :=
  match fields.filter (·.1 == name) with
  | [] => some default
  | [(_, n)] => read n
  | _ => none

end Yaml

open Yaml

/-- The settings of watching in a node; fields of other names are ignored. -/
def WatchSettings.ofNode? (d : Document) (n : LinkedNode) : Option WatchSettings := do
  let fields ← d.fields? n
  let usual : WatchSettings := {}
  let enabled ← field fields "enabled" usual.enabled d.flag?
  let pollIntervalMs ← field fields "poll_interval_ms" usual.pollIntervalMs d.number?
  return { enabled, pollIntervalMs }

namespace Config

/-- The names of all fields. -/
def fieldNames : List String :=
  ["conda_path", "venv_path", "venv_folders", "search_paths", "resolve_timeout_secs",
    "cache_expiry_hours", "include_registry", "include_path", "watch", "cache_dir"]

/-- The settings in a list of fields; a field of another name is refused. -/
def ofFields? (d : Document) (fields : List (String × LinkedNode)) : Option Config := do
  if !fields.all (fieldNames.contains ·.1) then none
  let usual : Config := {}
  let path := d.optional? fun n => (d.text? n).map Path.mk
  let paths n := (d.texts? n).map (List.map Path.mk)
  let condaPath ← field fields "conda_path" usual.condaPath path
  let venvPath ← field fields "venv_path" usual.venvPath path
  let venvFolders ← field fields "venv_folders" usual.venvFolders paths
  let searchPaths ← field fields "search_paths" usual.searchPaths paths
  let resolveTimeoutSecs ← field fields "resolve_timeout_secs" usual.resolveTimeoutSecs d.number?
  let cacheExpiryHours ← field fields "cache_expiry_hours" usual.cacheExpiryHours d.number?
  let includeRegistry ← field fields "include_registry" usual.includeRegistry d.flag?
  let includePath ← field fields "include_path" usual.includePath d.flag?
  let watch ← field fields "watch" usual.watch (WatchSettings.ofNode? d)
  let cacheDir ← field fields "cache_dir" usual.cacheDir path
  return { condaPath, venvPath, venvFolders, searchPaths, resolveTimeoutSecs, cacheExpiryHours,
           includeRegistry, includePath, watch, cacheDir }

/-- The settings in a document; one without content has the usual ones. -/
def ofDocument? (d : Document) : Option Config :=
  match d.root with
  | none => some {}
  | some root => (d.fields? root).bind (ofFields? d)

/-- The valid configuration in a text. A blank text has the usual settings. -/
def ofYaml (text : String) (file : Option Path) : Except ConfigFailure Config :=
  if (Text.trim text).isEmpty then .ok {}
  else
    match (Document.parse text).bind ofDocument? with
    | none => .error (.invalidYaml "" none none file)
    | some c => c.validate file

end Config

end EnvDiscovery
