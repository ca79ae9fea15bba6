import EnvDiscovery.Environment.Codec
import EnvDiscovery.Path.Normal

/-!
**News of changes.**

Main definitions:
* `FileChange` — what happened to a file;
* `EnvChange` — a hint that environments may have changed;
* `EnvChange.isIn` — whether it is about a given place.
-/

namespace EnvDiscovery

/-- What happened to a file. -/
inductive FileChange where
  | created
  | changed
  | deleted
deriving DecidableEq, Repr

/-- The word for a change. -/
def FileChange.name : FileChange → String
  | created => "created"
  | changed => "changed"
  | deleted => "deleted"

/-- All changes. -/
def FileChange.all : List FileChange := [created, changed, deleted]

/-- A hint that environments may have changed. What is left open may be anything. -/
structure EnvChange where
  kind : Option EnvKind
  searchLocation : Option Path
  change : Option FileChange
deriving DecidableEq, Repr

namespace EnvChange

/-- Anything may have changed. -/
def anything : EnvChange := ⟨none, none, none⟩

/-- Environments of a kind may have changed. -/
def ofKind (kind : Option EnvKind) : EnvChange := ⟨kind, none, none⟩

/-- Environments in a place may have changed. -/
def ofLocation (location : Path) : EnvChange := ⟨none, some location, none⟩

/-- Whether the hint is about exactly the given place. -/
def isIn (e : EnvChange) (location : Path) : Bool :=
  e.searchLocation.any (·.samePlace location)

/-- The text of a hint. -/
def render (e : EnvChange) : String :=
  "kind=" ++ (e.kind.map EnvKind.name).getD "any" ++
    (e.searchLocation.map fun p => " location=" ++ p.shown).getD "" ++
    (e.change.map fun c => " change=" ++ c.name).getD ""

/-- A hint as an object. -/
def toJson (e : EnvChange) : Json :=
  .obj [("kind", .ofOption (fun k => .str k.name) e.kind),
    ("search_location", .ofOption Path.toJson e.searchLocation),
    ("change_type", .ofOption (fun c => .str c.name) e.change)]

end EnvChange

end EnvDiscovery
