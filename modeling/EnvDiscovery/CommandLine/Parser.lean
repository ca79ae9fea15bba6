import EnvDiscovery.CommandLine.Grammar
import EnvDiscovery.Text.Ascii

/-!
**Reading a command line.**

Arguments are read from left to right. A value is checked when the next argument is taken over or
its level ends, so an argument that is not known at all is reported before a bad value in front of
it.

Main definitions:
* `Usage.Matches` — the values that the arguments of a level were given;
* `Usage.Reading`, `Usage.take`, `Usage.settle` — the state of the reading of one level;
* `Usage.readLevel` — reading a level and those below it;
* `CommandLine.parse` — what a command line asks for.
-/

namespace EnvDiscovery

namespace Usage

/-- The values that the arguments of a level were given, by name. -/
abbrev Matches := List (String × List String)

/-- The state of the reading of a level. `pending` is the argument whose values have not been taken
over yet, `awaits` tells whether it still lacks its value, and after two dashes everything is
`positional`. -/
structure Reading where
  found : Matches
  pending : Option (Argument × List String)
  awaits : Bool
  positional : Bool
  count : Nat

/-- The beginning of a level. -/
def Reading.start : Reading := ⟨[], none, false, false, 0⟩

/-- The values after an argument is met with some values. One that cannot be repeated conflicts with
itself, and a value is missing if there is none. -/
def take (found : Matches) (a : Argument) (values : List String) : Except Usage Matches :=
  let checked := match values.findSome? a.kind.fault? with
    | some fault => .error fault
    | none =>
      .ok ((a.name, (found.lookup a.name).getD [] ++ values) :: found.filter (·.1 != a.name))
  match a.action with
  | .showHelp => .error .displayHelp
  | .showVersion => .error .displayVersion
  | .setFlag =>
    if (found.lookup a.name).isSome then .error .argumentConflict else .ok ((a.name, []) :: found)
  | .setValue =>
    if values.isEmpty then .error .invalidValue
    else if (found.lookup a.name).isSome then .error .argumentConflict
    else checked
  | .addValue => if values.isEmpty then .error .invalidValue else checked

/-- Takes over the pending argument. -/
def settle (r : Reading) : Except Usage Reading :=
  match r.pending with
  | none => .ok { r with awaits := false }
  | some (a, values) =>
    (take r.found a values).map fun found =>
      { r with found := found, pending := none, awaits := false }

/-- Meets an argument with some values at once. -/
def meet (r : Reading) (a : Argument) (values : List String) : Except Usage Reading :=
  match settle r with
  | .error e => .error e
  | .ok r => (take r.found a values).map fun found => { r with found := found }

/-- Meets an argument that waits for its value. -/
def await (r : Reading) (a : Argument) : Except Usage Reading :=
  (settle r).map fun r => { r with pending := some (a, []), awaits := true }

/-- The name and the attached value of an argument with two dashes. -/
def splitLong (s : String) : Option (String × Option String) :=
  match s.toList with
  | '-' :: '-' :: [] => none
  | '-' :: '-' :: rest =>
    match Text.splitFirst? (· == '=') rest with
    | some (name, value) => some (String.ofList name, some (String.ofList value))
    | none => some (String.ofList rest, none)
  | _ => none

/-- The letters after a single dash. -/
def splitShort (s : String) : Option (List Char) :=
  match s.toList with
  | '-' :: '-' :: _ => none
  | '-' :: c :: rest => some (c :: rest)
  | _ => none

/-- Reads an option by its long name. -/
def readLong (l : Level) (r : Reading) (name : String) (value : Option String) :
    Except Usage Reading :=
  match l.optionNamed name with
  | none => .error .unknownArgument
  | some a =>
    if a.takesValue then
      match value with
      | some v => meet r a [v]
      | none => await r a
    else
      match value with
      | some _ => .error .tooManyValues
      | none => meet r a []

/-- The value attached to a letter, without an equals sign. -/
def attached : List Char → Option String
  | [] => none
  | '=' :: rest => some (String.ofList rest)
  | rest => some (String.ofList rest)

/-- Reads letters in a row; what follows a letter that takes a value is its value. -/
def readLetters (l : Level) (r : Reading) : List Char → Except Usage Reading
  | [] => .ok r
  | c :: rest =>
    match l.optionOf c with
    | none => .error .unknownArgument
    | some a =>
      if a.takesValue then
        match attached rest with
        | some v => meet r a [v]
        | none => await r a
      else
        match meet r a [] with
        | .error e => .error e
        | .ok r => readLetters l r rest

/-- Why a level does not accept a positional argument. -/
def refusal (l : Level) (r : Reading) (s : String) : Usage :=
  if r.positional && (l.sub? s).isSome then .unknownArgument
  else if l.subs.isEmpty then .unknownArgument
  else .invalidSubcommand

/-- Reads a value: of the argument that waits for one, or positional. -/
def readValue (l : Level) (r : Reading) (s : String) : Except Usage Reading :=
  match r.pending, r.awaits && !r.positional with
  | some (a, values), true => .ok { r with pending := some (a, values ++ [s]), awaits := false }
  | _, _ =>
    match l.positional?, r.count with
    | some a, 0 => (settle r).map fun r => { r with pending := some (a, [s]), count := 1 }
    | _, _ => .error (refusal l r s)

/-- Reads one argument that is no subcommand. -/
def readArgument (l : Level) (r : Reading) (s : String) : Except Usage Reading :=
  if r.positional then readValue l r s
  else if s == "--" then .ok { r with positional := true }
  else
    match splitLong s, splitShort s with
    | some (name, value), _ => readLong l r name value
    | none, some letters => readLetters l r letters
    | none, none => readValue l r s

/-- The end of a level, given whether a subcommand follows: required things may not be missing. -/
def finish (l : Level) (r : Reading) (hasSub : Bool) : Except Usage Matches :=
  match settle r with
  | .error e => .error e
  | .ok r =>
    if !hasSub && !l.subs.isEmpty then
      .error (if r.found.isEmpty then .displayHelpOnMissing else .missingSubcommand)
    else if l.positional?.any fun a => (r.found.lookup a.name).isNone then .error .missingRequired
    else .ok r.found

/-- The answer to a request for help on a chain of subcommands. -/
def helpOn (l : Level) : List String → Usage
  | [] => .displayHelp
  | name :: rest =>
    match l.sub? name with
    | some sub => helpOn sub rest
    | none => .invalidSubcommand

/-- The subcommand that an argument names, where one may stand. -/
def subcommandAt (l : Level) (r : Reading) (s : String) : Option Level :=
  if r.positional || r.awaits then none else l.sub? s

/-- Reads a level and those below it; gives the values level by level. -/
def readLevel (l : Level) (r : Reading) : List String → Except Usage (List (Level × Matches))
  | [] => (finish l r false).map fun found => [(l, found)]
  | s :: rest =>
    match subcommandAt l r s with
    | some .help => .error (helpOn l rest)
    | some sub =>
      match readLevel sub .start rest with
      | .error e => .error e
      | .ok inner => (finish l r true).map fun found => (l, found) :: inner
    | none =>
      match readArgument l r s with
      | .error e => .error e
      | .ok r => readLevel l r rest

end Usage

open Usage

/-- The values of an argument. -/
def Usage.Matches.values (m : Matches) (name : String) : List String :=
  (m.lookup name).getD []

/-- Whether an argument was given. -/
def Usage.Matches.has (m : Matches) (name : String) : Bool :=
  (m.lookup name).isSome

/-- The last value of an argument, as a path. -/
def Usage.Matches.path? (m : Matches) (name : String) : Option Path :=
  (m.values name).getLast?.map Path.mk

/-- The values of an argument, as paths. -/
def Usage.Matches.paths (m : Matches) (name : String) : List Path :=
  (m.values name).map Path.mk

/-- What the innermost level asks for. -/
def Subcommand.ofMatches? (l : Level) (m : Matches) : Option Subcommand :=
  match l with
  | .list => some (.list (m.paths "root") ((m.values "source").filterMap EnvSource.parse)
      (m.path? "resource") (m.has "json"))
  | .resolve => (m.path? "path").map (.resolve · (m.has "json"))
  | .watch => some (.watch (m.paths "root"))
  | .cacheClear => some (.cache .clear)
  | .cacheInfo => some (.cache .info)
  | .generateCompletion => ((m.values "shell").getLast?.bind Shell.parse).map .generateCompletion
  | .program | .cache | .help => none

/-- The options of all levels; of two values the one of the inner level counts. -/
def GlobalOptions.ofLevels (levels : List (Level × Matches)) : GlobalOptions :=
  let last (name : String) : Option String :=
    levels.foldl (fun v (_, m) => (m.values name).getLast? <|> v) none
  { verbose := levels.any (·.2.has "verbose")
    quiet := levels.any (·.2.has "quiet")
    config := (last "config").map Path.mk
    color := last "color" }

/-- What a command line asks for. -/
def CommandLine.parse (args : List String) : Except Usage CommandLine :=
  match readLevel .program .start args with
  | .error e => .error e
  | .ok levels =>
    match levels.getLast?.bind fun (l, m) => Subcommand.ofMatches? l m with
    | some command => .ok ⟨command, .ofLevels levels⟩
    | none => .error .missingSubcommand

end EnvDiscovery
