import EnvDiscovery.Event.Notifier
import EnvDiscovery.Glob.Match
import EnvDiscovery.Locator.Basic

/-!
**Watching for changes.**

A watch lasts until its handle is given up. A source starts its watches with its first listener;
conda also watches the folders that its report names, each place once.

Main definitions:
* `Watch`, `Watcher` — the watches that run, and the roots below which they are native;
* `Watcher.start`, `Watcher.stop`, `Watcher.reached` — starting, stopping, and the watches a change
  reaches;
* `Watcher.addNative`, `Watcher.removeNative` — roots that come and go;
* `Hearer` — who listens to a source;
* `WatchedLocator` — a source with its listeners and watches.
-/

namespace EnvDiscovery

/-- Whose watch it is: a source of the machine by position, or a source of a workspace root by the
number of the root and the position there. -/
inductive WatchOwner where
  | machine (position : Nat)
  | root (number position : Nat)
deriving DecidableEq, Repr

/-- A watch that runs. -/
structure Watch where
  handle : Nat
  owner : WatchOwner
  target : WatchTarget

/-- The watches that run, oldest first. Some directories cannot be watched, and without `enabled`
none can. -/
structure Watcher where
  enabled : Bool
  refused : List Path
  next : Nat
  active : List Watch
  native : NativeRoots

namespace Watcher

/-- No watches. -/
def new (enabled : Bool) (refused : List Path) : Watcher := ⟨enabled, refused, 0, [], ⟨[]⟩⟩

/-- Watches natively below a root from now on. -/
def addNative (w : Watcher) (root : Path) : Watcher :=
  if w.enabled then { w with native := w.native.add root } else w

/-- Watches natively below a root no longer. -/
def removeNative (w : Watcher) (root : Path) : Watcher :=
  if w.enabled then { w with native := w.native.remove root } else w

/-- Whether a target can be watched. -/
def accepts (w : Watcher) (t : WatchTarget) : Bool :=
  w.enabled && !w.refused.any (·.sameComponents t.dir)

/-- Starts one watch and gives its handle, if the target can be watched. -/
def startOne (w : Watcher) (owner : WatchOwner) (t : WatchTarget) : Watcher × List Nat :=
  if w.accepts t then
    ({ w with next := w.next + 1, active := w.active ++ [⟨w.next, owner, t⟩] }, [w.next])
  else (w, [])

/-- Starts a watch for each target in turn and gives the handles. -/
def start (w : Watcher) (owner : WatchOwner) : List WatchTarget → Watcher × List Nat
  | [] => (w, [])
  | t :: rest =>
    let (w, first) := w.startOne owner t
    let (w, more) := w.start owner rest
    (w, first ++ more)

/-- Treats the elements of a list in turn, each with the watches that the ones before it leave. -/
def through {α β : Type} (f : Watcher → α → β × Watcher) (w : Watcher) : List α → List β × Watcher
  | [] => ([], w)
  | a :: rest =>
    let (b, w) := f w a
    let (bs, w) := w.through f rest
    (b :: bs, w)

/-- Stops the watches of some handles. -/
def stop (w : Watcher) (handles : List Nat) : Watcher :=
  { w with active := w.active.filter fun x => !handles.contains x.handle }

/-- Whether a change of a path reaches a watch. -/
def reaches (path : Path) (x : Watch) : Bool :=
  match WatchPattern.new x.target.dir x.target.pattern with
  | .ok pattern => pattern.matchesPath path
  | .error _ => false

/-- The watches that a change of a path reaches. -/
def reached (w : Watcher) (path : Path) : List Watch :=
  w.active.filter (reaches path)

end Watcher

/-- Who listens: a client by name, the workspace on behalf of one of its roots, or the joined
discovery. -/
inductive Hearer where
  | client (name : String)
  | workspace (root : Nat)
  | joined
deriving DecidableEq, Repr

/-- A source with its listeners and watches. `reported` are the folders of the last report of conda,
and `covered` those for which a watch was asked. -/
structure WatchedLocator where
  locator : Locator
  notifier : Notifier Hearer
  reported : List Path
  covered : List Path

namespace WatchedLocator

/-- A source that nobody listens to. -/
def ofLocator (l : Locator) : WatchedLocator := ⟨l, .empty, [], []⟩

/-- The folders of a list that are not covered yet, each place once. -/
def uncovered (covered : List Path) : List Path → List Path
  | [] => []
  | dir :: rest =>
    if covered.any (·.samePlace dir) then uncovered covered rest
    else dir :: uncovered (covered ++ [dir]) rest

/-- The watches of folders that conda reports. -/
def folderTargets (dirs : List Path) : List WatchTarget :=
  dirs.map (Locator.condaTarget · "*")

/-- Registers a listener and starts the watches unless they run; a source that reports no changes
has no listeners. -/
def subscribe (x : WatchedLocator) (host : Host) (w : Watcher) (owner : WatchOwner) (h : Hearer) :
    Option (WatchedLocator × Watcher × Nat) :=
  if !x.locator.reportsChanges then none
  else if x.notifier.isWatching then
    let (notifier, number) := x.notifier.subscribe h []
    some ({ x with notifier := notifier }, w, number)
  else
    let dirs := uncovered x.covered x.reported
    let (w, handles) := w.start owner (x.locator.watchTargets host ++ folderTargets dirs)
    let (notifier, number) := x.notifier.subscribe h handles
    some ({ x with notifier := notifier, covered := x.covered ++ dirs }, w, number)

/-- Notes the folders of a report of conda, and watches the new ones if watches run. -/
def noteReport (x : WatchedLocator) (w : Watcher) (owner : WatchOwner) (i : CondaInfo) :
    WatchedLocator × Watcher :=
  if x.notifier.isWatching then
    let dirs := uncovered x.covered i.envsDirs
    let (w, handles) := w.start owner (folderTargets dirs)
    ({ x with
        reported := i.envsDirs
        covered := x.covered ++ dirs
        notifier := x.notifier.extend handles }, w)
  else ({ x with reported := i.envsDirs }, w)

/-- Removes a listener. -/
def unsubscribe (x : WatchedLocator) (number : Nat) : WatchedLocator :=
  { x with notifier := x.notifier.unsubscribe number }

/-- Stops the watches; the listeners stay. -/
def dispose (x : WatchedLocator) (w : Watcher) : WatchedLocator × Watcher :=
  ({ x with notifier := x.notifier.dispose, covered := [] }, w.stop (x.notifier.handles.getD []))

end WatchedLocator

end EnvDiscovery
