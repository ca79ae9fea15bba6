import EnvDiscovery.Environment.Codec
import EnvDiscovery.Json.Record
import EnvDiscovery.Version.Reader

/-!
**The report of an interpreter.**

An interpreter is given a script that prints one JSON object between two markers. Whatever else it
prints does not matter.

Main definitions:
* `Report.script` — the script;
* `Version.ofInfo` — a version from the five parts of `sys.version_info`;
* `Report.payload?` — the text between the markers;
* `Report.parse` — what the interpreter says of itself.
-/

namespace EnvDiscovery

/-- The 32-bit number at a place of a list. -/
def Version.part? (values : List Json) (place : Nat) : Option UInt32 :=
  values[place]?.bind Json.asUInt32?

/-- The level at the fourth place of a list. -/
def Version.levelPart? (values : List Json) : Option ReleaseLevel := do
  let v ← values[3]?
  let s ← v.asString?
  ReleaseLevel.parse s

/-- The version of a list such as `[3, 8, 5, "final", 0]`; it needs the first number. -/
def Version.ofInfo (values : List Json) : Option Version :=
  (part? values 0).map fun major =>
    { major := some major
      minor := part? values 1
      micro := part? values 2
      release := (levelPart? values).map fun level => ⟨level, (part? values 4).getD 0⟩
      sysVersion := none }

namespace Report

/-- The mark before the report. -/
def opening : String := ">>>JSON"

/-- The mark after the report. -/
def closing : String := "<<<JSON"

/-- The script that an interpreter is given. -/
def script : String :=
  "import json, sys\nprint(\">>>JSON\")\nprint(json.dumps(\x7b\n" ++
  "    \"versionInfo\": list(sys.version_info),\n    \"sysPrefix\": sys.prefix,\n" ++
  "    \"sysVersion\": sys.version,\n    \"is64Bit\": sys.maxsize > 2**32,\n" ++
  "    \"executable\": sys.executable,\n\x7d))\nprint(\"<<<JSON\")\n"

/-- What precedes and what follows the first occurrence of a mark. -/
def cutAt (mark : List Char) : List Char → Option (List Char × List Char)
  | [] => if mark.isEmpty then some ([], []) else none
  | c :: cs =>
    match Text.afterStart? mark (c :: cs) with
    | some rest => some ([], rest)
    | none => (cutAt mark cs).map fun (l, r) => (c :: l, r)

/-- The text between the first opening mark and the first closing mark after it. -/
def payload? (stdout : List Char) : Option (List Char) := do
  let (_, rest) ← cutAt opening.toList stdout
  let (payload, _) ← cutAt closing.toList rest
  some payload

/-- The fields of the report, in order. -/
def fieldNames : List String :=
  ["versionInfo", "sysPrefix", "sysVersion", "is64Bit", "executable"]

/-- What a payload says. -/
def decode (payload : List Char) : Option InterpreterInfo := do
  let r ← Json.readRecord? fieldNames (Text.trimChars payload)
  let versionInfo ← Json.required (Json.asList? some) (r.find "versionInfo" 0)
  let sysPrefix ← Json.required Path.ofJson? (r.find "sysPrefix" 1)
  let sysVersion ← Json.required Json.asString? (r.find "sysVersion" 2)
  let is64Bit ← Json.required Json.asBool? (r.find "is64Bit" 3)
  let executable ← Json.defaulted none (Json.nullable Path.ofJson?) (r.find "executable" 4)
  let version ← Version.ofInfo versionInfo
  some ⟨executable.getD ⟨""⟩, sysPrefix, { version with sysVersion := some (Text.trim sysVersion) },
    .ofIs64Bit is64Bit⟩

/-- What an interpreter says of itself in its output. -/
def parse (stdout : String) : Option InterpreterInfo :=
  (payload? stdout.toList).bind decode

end Report

end EnvDiscovery
