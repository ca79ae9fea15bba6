import EnvDiscovery.Environment.Codec

/-!
**Interpreters in a listing.**

Main definitions:
* `Listing.Entry` — the flat record that a listing shows for an environment;
* `Listing.entryOf` — the entry of an environment.
-/

namespace EnvDiscovery.Listing

/-- What a listing shows for an environment. -/
structure Entry where
  path : Path
  version : Option String
  sysVersion : Option String
  sysPrefix : Option Path
  architecture : Architecture
  category : EnvKind.Category
  envName : Option String
  envPath : Option Path
  company : Option String
  displayName : String
  cached : Bool
deriving DecidableEq

/-- The entry of an environment; `cached` tells whether it was known before. -/
def entryOf (e : EnvRecord) (cached : Bool) : Entry where
  path := e.path
  version := if e.version.isUnknown then none else some e.version.render
  sysVersion := e.version.sysVersion
  sysPrefix := e.executable.sysPrefix
  architecture := e.arch
  category := e.kind.category
  envName := if e.name.isEmpty then none else some e.name
  envPath := e.location
  company := e.distro.org
  displayName := e.displayName
  cached := cached

/-- An entry as an object. -/
def Entry.toJson (x : Entry) : Json :=
  .obj [("path", x.path.toJson), ("version", .ofOption .str x.version),
    ("sysVersion", .ofOption .str x.sysVersion), ("sysPrefix", .ofOption Path.toJson x.sysPrefix),
    ("architecture", .str x.architecture.name), ("envType", .str x.category.name),
    ("envName", .ofOption .str x.envName), ("envPath", .ofOption Path.toJson x.envPath),
    ("companyDisplayName", .ofOption .str x.company), ("displayName", .str x.displayName),
    ("cachedEntry", .bool x.cached)]

end EnvDiscovery.Listing
