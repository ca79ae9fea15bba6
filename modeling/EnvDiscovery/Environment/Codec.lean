import EnvDiscovery.Environment.Record
import EnvDiscovery.Json.Decoder

/-!
**Records as JSON.**

A time before 1970 has no JSON form, and neither has a record that holds one.

Main definitions:
* `Version.toJson`, `Version.ofJson?` — versions;
* `InterpreterInfo.toJson`, `InterpreterInfo.ofJson?` — what interpreters say;
* `EnvRecord.toJson?`, `EnvRecord.ofJson?` — environments.
-/

namespace EnvDiscovery

/-- A path is its text. -/
def Path.toJson (p : Path) : Json := .str p.text

/-- A path from its text. -/
def Path.ofJson? (v : Json) : Option Path :=
  v.asString?.map Path.mk

/-! ### Versions -/

/-- A release as an object. -/
def Release.toJson (r : Release) : Json :=
  .obj [("level", .str r.level.name), ("serial", Json.ofUInt32 r.serial)]

/-- A release from an object or an array. -/
def Release.ofJson? (v : Json) : Option Release := do
  let r ← v.asRecord? 2
  let level ← Json.required (Json.asName? ReleaseLevel.all ReleaseLevel.name) (r.find "level" 0)
  let serial ← Json.required Json.asUInt32? (r.find "serial" 1)
  some ⟨level, serial⟩

/-- A version as an object. -/
def Version.toJson (v : Version) : Json :=
  .obj [("major", .ofOption Json.ofUInt32 v.major), ("minor", .ofOption Json.ofUInt32 v.minor),
    ("micro", .ofOption Json.ofUInt32 v.micro), ("release", .ofOption Release.toJson v.release),
    ("sysVersion", .ofOption .str v.sysVersion)]

/-- A version from an object or an array. -/
def Version.ofJson? (v : Json) : Option Version := do
  let r ← v.asRecord? 5
  let major ← Json.optional Json.asUInt32? (r.find "major" 0)
  let minor ← Json.optional Json.asUInt32? (r.find "minor" 1)
  let micro ← Json.optional Json.asUInt32? (r.find "micro" 2)
  let release ← Json.optional Release.ofJson? (r.find "release" 3)
  let sysVersion ← Json.optional Json.asString? (r.find "sysVersion" 4)
  some ⟨major, minor, micro, release, sysVersion⟩

/-! ### Times -/

/-- A time as an object, unless it lies before 1970. -/
def Timestamp.toJson? (t : Timestamp) : Option Json :=
  if t.isBeforeEpoch then none
  else some (.obj [("secs_since_epoch", .int t.secs), ("nanos_since_epoch", .nat t.nanos)])

/-- Nanoseconds in a second. -/
def nanosPerSec : Nat := 1000000000

/-- A time from seconds and nanoseconds, where whole seconds among the nanoseconds are carried
over. -/
def Timestamp.ofParts? (secs nanos : Nat) : Option Timestamp :=
  let total := secs + nanos / nanosPerSec
  if total < 9223372036854775808 then some ⟨total, nanos % nanosPerSec⟩ else none

/-- A time from an object with exactly its two fields, or from an array of two. -/
def Timestamp.ofJson? (v : Json) : Option Timestamp := do
  let known := match v with
    | .obj fields => fields.all fun (n, _) => n == "secs_since_epoch" || n == "nanos_since_epoch"
    | _ => true
  if !known then none
  let r ← v.asRecord? 2
  let secs ← Json.required (Json.asNatBelow? UInt64.size) (r.find "secs_since_epoch" 0)
  let nanos ← Json.required (Json.asNatBelow? UInt32.size) (r.find "nanos_since_epoch" 1)
  Timestamp.ofParts? secs nanos

/-- A time that may be missing. -/
def Timestamp.optionToJson? : Option Timestamp → Option Json
  | none => some .null
  | some t => t.toJson?

/-! ### Interpreters and environments -/

/-- An architecture is its name. -/
def Architecture.ofJson? : Json → Option Architecture :=
  Json.asName? all name

/-- A kind is its name. -/
def EnvKind.ofJson? : Json → Option EnvKind :=
  Json.asName? all name

/-- A set of sources is the list of their names. -/
def SourceSet.toJson (s : SourceSet) : Json :=
  .strings (s.toList.map EnvSource.name)

/-- A set of sources from a list of names in any order. -/
def SourceSet.ofJson? (v : Json) : Option SourceSet :=
  (Json.asList? (Json.asName? EnvSource.all EnvSource.name) v).map SourceSet.ofList

/-- What an interpreter says, as an object. -/
def InterpreterInfo.toJson (i : InterpreterInfo) : Json :=
  .obj [("executable", i.executable.toJson), ("sysPrefix", i.sysPrefix.toJson),
    ("version", i.version.toJson), ("arch", .str i.arch.name)]

/-- What an interpreter says, from an object or an array. -/
def InterpreterInfo.ofJson? (v : Json) : Option InterpreterInfo := do
  let r ← v.asRecord? 4
  let executable ← Json.required Path.ofJson? (r.find "executable" 0)
  let sysPrefix ← Json.required Path.ofJson? (r.find "sysPrefix" 1)
  let version ← Json.required Version.ofJson? (r.find "version" 2)
  let arch ← Json.required Architecture.ofJson? (r.find "arch" 3)
  some ⟨executable, sysPrefix, version, arch⟩

/-- An executable as an object, unless one of its times lies before 1970. -/
def Executable.toJson? (x : Executable) : Option Json := do
  let ctime ← Timestamp.optionToJson? x.ctime
  let mtime ← Timestamp.optionToJson? x.mtime
  some (.obj [("filename", x.filename.toJson), ("sysPrefix", .ofOption Path.toJson x.sysPrefix),
    ("ctime", ctime), ("mtime", mtime)])

/-- An executable from an object or an array. -/
def Executable.ofJson? (v : Json) : Option Executable := do
  let r ← v.asRecord? 4
  let filename ← Json.required Path.ofJson? (r.find "filename" 0)
  let sysPrefix ← Json.optional Path.ofJson? (r.find "sysPrefix" 1)
  let ctime ← Json.optional Timestamp.ofJson? (r.find "ctime" 2)
  let mtime ← Json.optional Timestamp.ofJson? (r.find "mtime" 3)
  some ⟨filename, sysPrefix, ctime, mtime⟩

/-- A distributor as an object. -/
def Distro.toJson (d : Distro) : Json :=
  .obj [("org", .ofOption .str d.org), ("defaultDisplayName", .ofOption .str d.defaultDisplayName)]

/-- A distributor from an object or an array. -/
def Distro.ofJson? (v : Json) : Option Distro := do
  let r ← v.asRecord? 2
  let org ← Json.optional Json.asString? (r.find "org" 0)
  let displayName ← Json.optional Json.asString? (r.find "defaultDisplayName" 1)
  some ⟨org, displayName⟩

/-- An environment as an object, unless one of its times lies before 1970. -/
def EnvRecord.toJson? (e : EnvRecord) : Option Json := do
  let executable ← e.executable.toJson?
  some (.obj [("name", .str e.name), ("location", .ofOption Path.toJson e.location),
    ("kind", .str e.kind.name), ("executable", executable), ("version", e.version.toJson),
    ("arch", .str e.arch.name), ("distro", e.distro.toJson),
    ("searchLocation", .ofOption Path.toJson e.searchLocation), ("source", e.sources.toJson)])

/-- An environment from an object or an array. -/
def EnvRecord.ofJson? (v : Json) : Option EnvRecord := do
  let r ← v.asRecord? 9
  let name ← Json.required Json.asString? (r.find "name" 0)
  let location ← Json.optional Path.ofJson? (r.find "location" 1)
  let kind ← Json.required EnvKind.ofJson? (r.find "kind" 2)
  let executable ← Json.required Executable.ofJson? (r.find "executable" 3)
  let version ← Json.required Version.ofJson? (r.find "version" 4)
  let arch ← Json.required Architecture.ofJson? (r.find "arch" 5)
  let distro ← Json.required Distro.ofJson? (r.find "distro" 6)
  let searchLocation ← Json.optional Path.ofJson? (r.find "searchLocation" 7)
  let sources ← Json.required SourceSet.ofJson? (r.find "source" 8)
  some ⟨name, location, kind, executable, version, arch, distro, searchLocation, sources⟩

end EnvDiscovery
