import EnvDiscovery.Path.Basic

/-!
**Normal paths.**

A path is resolved by its spelling alone: a single dot is dropped and a double dot takes back the
component before it. Where there is nothing to take back the double dot stays, and the next one
takes it back. Two paths are taken for the same place if they are shown alike after that, and one
contains the other if its components, bytes and all, open those of the other.

Main definitions:
* `Path.push`, `Path.resolved` — resolution, one component at a time;
* `Path.normalize`, `Path.key` — the plain spelling of the resolved path;
* `Path.samePlace`, `Path.within` — equality and containment after resolution.
-/

namespace EnvDiscovery.Path

/-- Adds one component to a resolved path, which is held last component first. -/
def push (stack : List Component) : Component → List Component
  | .here => stack
  | .up =>
    match stack with
    | [] => [.up]
    | [.root] => [.up, .root]
    | _ :: below => below
  | c => c :: stack

/-- The components of a path after resolution. -/
def resolved (p : Path) : List Component :=
  (p.components.foldl push []).reverse

/-- The plain spelling of the resolved path. -/
def normalize (p : Path) : Path :=
  ofComponents p.resolved

/-- The text by which paths are compared and stored. It does not tell stray bytes apart. -/
def key (p : Path) : String :=
  p.normalize.shown

/-- Whether two paths are shown alike after resolution. -/
def samePlace (p q : Path) : Bool :=
  p.key == q.key

/-- Whether `p` is `parent` or lies below it. -/
def within (p parent : Path) : Bool :=
  p.normalize.startsWith parent.normalize

end EnvDiscovery.Path
