import EnvDiscovery.Text.Ascii
import EnvDiscovery.Text.Blank
import EnvDiscovery.Text.Lines
import EnvDiscovery.Text.Utf8
import EnvDiscovery.Version.Basic

/-!
**Reading versions.**

A version stands at the start of a text, after blanks and an optional `v`; what follows it is
ignored. A component that is no 32-bit number in ASCII digits is missing.

Main definitions:
* `Version.parse` — the version at the start of a text;
* `Version.ofEnvironmentConfig` — from the text of a `pyvenv.cfg` file;
* `Version.ofPackageRecord`, `Version.ofExecutableName` — from file names.
-/

namespace EnvDiscovery

/-- The level that a full name or a tag stands for. -/
def ReleaseLevel.parse (s : String) : Option ReleaseLevel :=
  match Text.asciiLower (Text.trim s) with
  | "alpha" | "a" => some .alpha
  | "beta" | "b" => some .beta
  | "candidate" | "rc" | "c" => some .candidate
  | "final" => some .final
  | _ => none

namespace Version

/-- The 32-bit number that a run of digits writes, if they are ASCII digits and it fits. -/
def component? (digits : List Char) : Option UInt32 :=
  match Text.natOfAscii? digits with
  | some n => if n < UInt32.size then some (UInt32.ofNat n) else none
  | none => none

/-- The digits after a dot, and the rest; none when no digit follows the dot. -/
def dotted : List Char → Option (List Char) × List Char
  | '.' :: cs =>
    match Text.spanDigits cs with
    | ([], _) => (none, '.' :: cs)
    | (ds, rest) => (some ds, rest)
  | cs => (none, cs)

/-- The level that a tag at the start of a text stands for, and what follows the tag. -/
def tagged : List Char → Option (ReleaseLevel × List Char)
  | 'a' :: cs => some (.alpha, cs)
  | 'b' :: cs => some (.beta, cs)
  | 'r' :: 'c' :: cs => some (.candidate, cs)
  | 'c' :: cs => some (.candidate, cs)
  | _ => none

/-- The release that a tag and its digits write. -/
def release? (cs : List Char) : Option Release :=
  match tagged cs with
  | some (level, rest) => (component? (Text.spanDigits rest).1).map (⟨level, ·⟩)
  | none => none

/-- Drops the letter that may precede a version. -/
def dropMark : List Char → List Char
  | 'v' :: cs => cs
  | cs => cs

/-- The version at the start of a list of characters. -/
def parseChars (cs : List Char) : Option Version :=
  match Text.spanDigits (dropMark (Text.dropBlanks cs)) with
  | ([], _) => none
  | (major, rest) =>
    let (minor, rest) := dotted rest
    let (micro, rest) := dotted rest
    some ⟨component? major, minor.bind component?, micro.bind component?, release? rest, none⟩

/-- The version at the start of a text. -/
def parse (s : String) : Option Version :=
  parseChars s.toList

/-! ### Other places -/

/-- The setting that a line `key = value` makes: the key in lower case, the value as it stands. -/
def setting? (line : List Char) : Option (String × List Char) :=
  (Text.splitFirst? (· == '=') line).map fun (key, value) =>
    (Text.asciiLower (String.ofList (Text.trimChars key)), value)

/-- The version that settings give: the first `version`, or else the last `version_info`. -/
def ofSettings : List (String × List Char) → Option Version → Option Version
  | [], fallback => fallback
  | (key, value) :: rest, fallback =>
    if key = "version" then parseChars value
    else if key = "version_info" then ofSettings rest (parseChars value)
    else ofSettings rest fallback

/-- The version that the text of a `pyvenv.cfg` file gives. -/
def ofEnvironmentConfig (content : String) : Option Version :=
  ofSettings ((Text.linesOf content.toList).filterMap setting?) none

/-- Passes over groups of a dot and digits. -/
def dropDotted : Nat → List Char → List Char
  | 0, cs => cs
  | n + 1, cs =>
    match dotted cs with
    | (some _, rest) => dropDotted n rest
    | (none, rest) => rest

/-- The version in the name `python-X.Y.Z-build.json` of a package record, if the name is a text. -/
def ofPackageRecord (fileName : String) : Option Version :=
  match Text.afterStart? "python-".toList fileName.toList with
  | none => none
  | some cs =>
    match Text.spanDigits cs with
    | ([], _) => none
    | (_, rest) =>
      match dropDotted rest.length rest with
      | '-' :: build =>
        match Text.beforeEnd? ".json".toList build with
        | some name =>
          if name.contains '\n' || name.any Text.isStray then none else parseChars cs
        | none => none
      | _ => none

/-- The version in the name of an executable, such as `python3.8`. -/
def ofExecutableName (fileName : String) : Option Version :=
  match Text.afterStart? "python".toList (fileName.toList.map Char.toLower) with
  | none => none
  | some cs =>
    match Text.spanDigits cs with
    | ([], _) => none
    | (_, rest) =>
      let rest := (dotted rest).2
      if rest = [] ∨ rest = ".exe".toList then parseChars cs else none

end Version

end EnvDiscovery
