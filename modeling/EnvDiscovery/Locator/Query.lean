import EnvDiscovery.Environment.Record
import EnvDiscovery.Path.Normal

/-!
**What is asked of discovery.**

Main definitions:
* `Query` — the wanted kinds and the roots to search;
* `Query.matchesKind`, `Query.includesRoot`, `Query.includesNonRooted` — what a query lets through;
* `Query.inScope` — whether a record belongs to what was asked.
-/

namespace EnvDiscovery

/-- The roots that a query is limited to. -/
structure Scope where
  roots : List Path
  includeNonRooted : Bool
deriving DecidableEq

/-- A restriction of a listing. -/
structure Query where
  kinds : Option (List EnvKind)
  scope : Option Scope
deriving DecidableEq

namespace Query

/-- Every environment. -/
def all : Query := ⟨none, none⟩

/-- The environments of some roots, and those of no root if wanted. -/
def forRoots (roots : List Path) (includeNonRooted : Bool) : Query :=
  ⟨none, some ⟨roots, includeNonRooted⟩⟩

/-- Whether a kind is wanted. -/
def matchesKind (q : Query) (k : EnvKind) : Bool :=
  match q.kinds with
  | some kinds => kinds.contains k
  | none => true

/-- The roots that the query names. -/
def roots (q : Query) : List Path :=
  match q.scope with
  | some s => s.roots
  | none => []

/-- Whether the query names a root. -/
def isRootScoped (q : Query) : Bool :=
  !q.roots.isEmpty

/-- Whether environments of no root are wanted. -/
def includesNonRooted (q : Query) : Bool :=
  match q.scope with
  | some s => s.roots.isEmpty || s.includeNonRooted
  | none => true

/-- Whether a root is searched. -/
def includesRoot (q : Query) (root : Path) : Bool :=
  q.roots.isEmpty || q.roots.any (·.samePlace root)

/-- Whether the place where a record was found was asked for. -/
def inScope (q : Query) (e : EnvRecord) : Bool :=
  if !q.isRootScoped then true
  else
    match e.searchLocation with
    | some location => q.roots.any (·.samePlace location)
    | none => q.includesNonRooted

end Query

end EnvDiscovery
