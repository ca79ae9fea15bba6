import EnvDiscovery.Text.Ascii

/-!
**Where environments are reported from.**

Main definitions:
* `EnvSource` — the places that are searched;
* `SourceSet` — a set of sources, listed in their order without repetition;
* `SourceSet.insert`, `SourceSet.union` — growing a set.
-/

namespace EnvDiscovery

/-- The places that are searched for environments. -/
inductive EnvSource where
  | conda
  | windowsRegistry
  | pyenv
  | workspaceVirtualEnv
  | globalVirtualEnv
  | knownPath
  | pathEnvVar
  | other
deriving DecidableEq, Repr

namespace EnvSource

/-- All sources, in order. -/
def all : List EnvSource :=
  [conda, windowsRegistry, pyenv, workspaceVirtualEnv, globalVirtualEnv, knownPath,
    pathEnvVar, other]

/-- The name of a source. -/
def name : EnvSource → String
  | conda => "conda"
  | windowsRegistry => "windows-registry"
  | pyenv => "pyenv"
  | workspaceVirtualEnv => "workspace-virtual-env"
  | globalVirtualEnv => "global-virtual-env"
  | knownPath => "known-path"
  | pathEnvVar => "path-env-var"
  | other => "other"

/-- A source by its name, whatever the case of the letters. -/
def parse (s : String) : Option EnvSource :=
  all.find? fun k => Text.eqIgnoreCase k.name s

/-- What is said of a text that names no source. -/
def unknownMessage (s : String) : String :=
  "unknown source '" ++ s ++ "' (expected one of: " ++ ", ".intercalate (all.map name) ++ ")"

end EnvSource

/-- A set of sources: its members in the order of `EnvSource.all`, each once. -/
structure SourceSet where
  toList : List EnvSource
  ordered : EnvSource.all.filter (toList.contains ·) = toList
deriving DecidableEq

namespace SourceSet

/-- The members of `EnvSource.all` that satisfy `p`. -/
def ofPred (p : EnvSource → Bool) : SourceSet where
  toList := EnvSource.all.filter p
  ordered := by
    apply List.filter_congr
    intro x hx
    rw [Bool.eq_iff_iff]
    simp [List.mem_filter, hx]

/-- The set of the members of a list. -/
def ofList (xs : List EnvSource) : SourceSet :=
  ofPred (xs.contains ·)

/-- The set without members. -/
def empty : SourceSet := ofList []

instance : Inhabited SourceSet := ⟨empty⟩

/-- Whether a source belongs to the set. -/
def contains (s : SourceSet) (x : EnvSource) : Bool :=
  s.toList.contains x

/-- The set with one more member. -/
def insert (x : EnvSource) (s : SourceSet) : SourceSet :=
  ofPred fun y => y == x || s.contains y

/-- The members of either set. -/
def union (s t : SourceSet) : SourceSet :=
  ofPred fun y => s.contains y || t.contains y

end SourceSet

end EnvDiscovery
