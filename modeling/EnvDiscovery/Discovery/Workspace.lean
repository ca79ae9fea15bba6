import EnvDiscovery.Discovery.Composite
import EnvDiscovery.Discovery.Watching

/-!
**Workspace folders.**

The host opens and closes folders; the workspace keeps sources for each open folder as long as it is
attached to the host, and tells its listeners of every folder that comes or goes.

Main definitions:
* `Folders.open?`, `Folders.close?` — the folders of the host;
* `WorkspaceRoot`, `RootFactory` — a root with its sources, and what makes them;
* `Workspace` — the roots, and the listeners;
* `Workspace.addRoot`, `Workspace.removeRoot` — roots that come and go;
* `Workspace.subscribe`, `Workspace.dispose` — listeners and the end;
* `Workspace.rootContaining` — the innermost root of a path.
-/

namespace EnvDiscovery

/-! ### The folders of the host -/

namespace Folders

/-- The folders after one is opened, unless it was open. -/
def open? (folders : List Path) (root : Path) : Option (List Path) :=
  if folders.any (·.samePlace root) then none else some (folders ++ [root])

/-- The folders after one is closed, if it was open. -/
def close? (folders : List Path) (root : Path) : Option (List Path) :=
  if folders.any (·.samePlace root) then some (folders.filter (!·.samePlace root)) else none

end Folders

/-! ### Roots -/

/-- What makes the sources of a root. They run no programs, but may break off. -/
abbrev RootFactory := Path → List { l : Locator // l.isQuiet = true }

/-- The virtual environments of the root. -/
def RootVirtualEnvs.factory : RootFactory := fun root => [⟨.rootVirtualEnvs root, rfl⟩]

/-- A source of a root, and the number under which the workspace listens to it. -/
structure RootSource where
  watched : WatchedLocator
  forward : Option Nat

namespace RootSource

/-- A source that the workspace does not listen to. -/
def ofLocator (l : Locator) : RootSource := ⟨.ofLocator l, none⟩

/-- Makes the source of a root report to the workspace, if it reports changes. -/
def report (host : Host) (number : Nat) (w : Watcher) (x : RootSource × Nat) :
    RootSource × Watcher :=
  match x.1.watched.subscribe host w (.root number x.2) (.workspace number) with
  | none => (x.1, w)
  | some (watched, w, registration) => (⟨watched, some registration⟩, w)

/-- The source of a root that is gone: the workspace does not listen to it and its watches have
stopped. -/
def retire (w : Watcher) (x : RootSource) : RootSource × Watcher :=
  let watched := x.forward.elim x.watched x.watched.unsubscribe
  let (watched, w) := watched.dispose w
  (⟨watched, none⟩, w)

end RootSource

/-- A root of the workspace, its number and its sources. -/
structure WorkspaceRoot where
  number : Nat
  root : Path
  sources : List RootSource

namespace WorkspaceRoot

/-- A root with new sources. -/
def make (factories : List RootFactory) (number : Nat) (root : Path) : WorkspaceRoot :=
  ⟨number, root, (factories.flatMap (· root)).map fun l => .ofLocator l.1⟩

/-- Makes the sources of a root report to the workspace. -/
def forward (host : Host) (w : Watcher) (r : WorkspaceRoot) : WorkspaceRoot × Watcher :=
  let (sources, w) := w.through (RootSource.report host r.number) r.sources.zipIdx
  ({ r with sources := sources }, w)

/-- A root that is gone. -/
def retire (w : Watcher) (r : WorkspaceRoot) : WorkspaceRoot × Watcher :=
  let (sources, w) := w.through RootSource.retire r.sources
  ({ r with sources := sources }, w)

end WorkspaceRoot

/-- The roots of the workspace, and those that are gone, whose sources others may still hold. With
`forwarding` the sources of the roots report to the workspace, and as long as it is `attached` it
follows the folders of the host. -/
structure Workspace where
  factories : List RootFactory
  roots : List WorkspaceRoot
  gone : List WorkspaceRoot
  next : Nat
  emitter : Emitter Hearer
  forwarding : Bool
  attached : Bool

namespace Workspace

/-- A workspace without roots. -/
def empty (factories : List RootFactory) : Workspace := ⟨factories, [], [], 0, .empty, false, true⟩

/-- The paths of the roots. -/
def paths (ws : Workspace) : List Path :=
  ws.roots.map (·.root)

/-- The root of a number, if it is still there. -/
def root? (ws : Workspace) (number : Nat) : Option WorkspaceRoot :=
  ws.roots.find? (·.number == number)

/-- The source at a position of the root of a number, also if the root is gone. -/
def source? (ws : Workspace) (number position : Nat) : Option RootSource :=
  ((ws.roots ++ ws.gone).find? (·.number == number)).bind (·.sources[position]?)

/-- The workspace with a new root, unless it has the root. -/
def addRoot (ws : Workspace) (host : Host) (w : Watcher) (root : Path) :
    Option (Workspace × Watcher) :=
  if ws.paths.any (·.samePlace root) then none
  else
    let r := WorkspaceRoot.make ws.factories ws.next root
    let (r, w) := if ws.forwarding then r.forward host w else (r, w)
    some ({ ws with roots := ws.roots ++ [r], next := ws.next + 1 }, w)

/-- The workspace without a root, if it has the root. -/
def removeRoot (ws : Workspace) (w : Watcher) (root : Path) : Option (Workspace × Watcher) :=
  let removed := ws.roots.filter (·.root.samePlace root)
  if removed.isEmpty then none
  else
    let (retired, w) := w.through WorkspaceRoot.retire removed
    some ({ ws with roots := ws.roots.filter (!·.root.samePlace root), gone := ws.gone ++ retired },
      w)

/-- The workspace over the folders that are open at first. -/
def ofFolders (factories : List RootFactory) (host : Host) (w : Watcher) (folders : List Path) :
    Workspace × Watcher :=
  folders.foldl (fun (ws, w) root => (ws.addRoot host w root).getD (ws, w)) (empty factories, w)

/-- Registers a listener; with the first one the roots begin to report. -/
def subscribe (ws : Workspace) (host : Host) (w : Watcher) (h : Hearer) :
    Workspace × Watcher × Nat :=
  let (emitter, number) := ws.emitter.add h
  if ws.forwarding then ({ ws with emitter := emitter }, w, number)
  else
    let (roots, w) := w.through (WorkspaceRoot.forward host) ws.roots
    ({ ws with emitter := emitter, roots := roots, forwarding := true }, w, number)

/-- Ends the workspace: it follows the folders no longer and has no roots. -/
def dispose (ws : Workspace) (w : Watcher) : Workspace × Watcher :=
  let (retired, w) := w.through WorkspaceRoot.retire ws.roots
  ({ ws with roots := [], gone := ws.gone ++ retired, attached := false }, w)

/-- The innermost root that contains a path; of equally deep ones the last. -/
def rootContaining (ws : Workspace) (path : Path) : Option Path :=
  (ws.paths.filter (path.within ·)).foldl (fun best root =>
    match best with
    | none => some root
    | some b => if b.components.length ≤ root.components.length then some root else some b) none

/-- What the sources of a root find. -/
def listRoot (s : Surroundings) (r : WorkspaceRoot) : List Found :=
  r.sources.map (·.watched.locator.found s)

/-- The environments of the roots of some numbers, one of each source in turn, with a gap where a
source breaks off. A root that is gone has none. -/
def list (ws : Workspace) (s : Surroundings) (numbers : List Nat) : List (Option EnvRecord) :=
  roundRobin (((numbers.filterMap ws.root?).flatMap (listRoot s)).map Found.items)

/-- The numbers of the roots that a query searches. -/
def searched (ws : Workspace) (q : Query) : List Nat :=
  (ws.roots.filter (q.includesRoot ·.root)).map (·.number)

/-- The sources of the roots. -/
def sources (ws : Workspace) : List Locator :=
  ws.roots.flatMap fun r => r.sources.map (·.watched.locator)

end Workspace

end EnvDiscovery
