import EnvDiscovery.Environment.Kind
import EnvDiscovery.Environment.Source
import EnvDiscovery.Path.Basic
import EnvDiscovery.Text.Blank
import EnvDiscovery.Time
import EnvDiscovery.Version.Basic

/-!
**Records of environments.**

A locator reports an environment with what the file layout shows; running the interpreter adds the
rest.

Main definitions:
* `Architecture` — the word size of an interpreter;
* `EnvRecord` — a discovered environment;
* `InterpreterInfo` — what an interpreter says of itself;
* `EnvRecord.complete` — a record together with that;
* `EnvRecord.displayName` — the label of a record.
-/

namespace EnvDiscovery

/-- The word size of an interpreter. -/
inductive Architecture where
  | x86
  | x64
  | unknown
deriving DecidableEq, Repr

namespace Architecture

/-- All architectures. -/
def all : List Architecture := [x86, x64, unknown]

/-- The name of an architecture. -/
def name : Architecture → String
  | x86 => "x86"
  | x64 => "x64"
  | unknown => "unknown"

/-- The architecture of a 64-bit interpreter, or of one that is not. -/
def ofIs64Bit (is64Bit : Bool) : Architecture :=
  if is64Bit then x64 else x86

/-- The architecture that a text names, unknown if it names none. -/
def parse (s : String) : Architecture :=
  match Text.asciiLower (Text.trim s) with
  | "64bit" | "x64" | "amd64" => x64
  | "32bit" | "x86" => x86
  | _ => unknown

end Architecture

/-- An executable and what the file system says of it. -/
structure Executable where
  filename : Path
  sysPrefix : Option Path
  ctime : Option Timestamp
  mtime : Option Timestamp
deriving DecidableEq

/-- Who distributes an interpreter. -/
structure Distro where
  org : Option String
  defaultDisplayName : Option String
deriving DecidableEq

/-- What an interpreter says of itself. -/
structure InterpreterInfo where
  executable : Path
  sysPrefix : Path
  version : Version
  arch : Architecture
deriving DecidableEq

/-- A discovered environment. -/
structure EnvRecord where
  name : String
  location : Option Path
  kind : EnvKind
  executable : Executable
  version : Version
  arch : Architecture
  distro : Distro
  searchLocation : Option Path
  sources : SourceSet
deriving DecidableEq

namespace EnvRecord

/-- The record of which only the executable and the kind are known. -/
def new (executable : Path) (kind : EnvKind) : EnvRecord where
  name := ""
  location := none
  kind := kind
  executable := ⟨executable, none, none, none⟩
  version := .unknown
  arch := .unknown
  distro := ⟨none, none⟩
  searchLocation := none
  sources := .empty

/-- The path of the executable. -/
def path (e : EnvRecord) : Path :=
  e.executable.filename

/-- The record with one more source. -/
def withSource (s : EnvSource) (e : EnvRecord) : EnvRecord :=
  { e with sources := e.sources.insert s }

/-- Whether everything is known that running the interpreter could tell. -/
def isResolved (e : EnvRecord) : Bool :=
  e.version.isComplete && e.arch != .unknown && e.executable.sysPrefix.isSome

/-- The record with what its interpreter says. The path of the executable stays, since records are
told apart by it. -/
def complete (e : EnvRecord) (info : InterpreterInfo) : EnvRecord :=
  { e with
    version := info.version.moreComplete e.version
    arch := info.arch
    executable := { e.executable with sysPrefix := some info.sysPrefix }
    location := if e.location.isNone && e.kind.isVirtual then some info.sysPrefix else e.location }

/-- The word size in a label. -/
def bitsLabel : Architecture → String
  | .unknown => ""
  | .x64 => " 64-bit"
  | .x86 => " 32-bit"

/-- The name and kind in a label. -/
def kindLabel (e : EnvRecord) : String :=
  if !e.name.isEmpty then " ('" ++ e.name ++ "': " ++ e.kind.name ++ ")"
  else if e.kind != .unknown then " (" ++ e.kind.name ++ ")"
  else ""

/-- The label of a record. -/
def displayName (e : EnvRecord) : String :=
  match e.distro.defaultDisplayName with
  | some label => label
  | none => "Python " ++ e.version.render ++ bitsLabel e.arch ++ e.kindLabel

end EnvRecord

end EnvDiscovery
