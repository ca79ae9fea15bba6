import EnvDiscovery.Event.Emitter

/-!
**Listeners and the watches behind them.**

Watches start with the first listener and run until they are disposed of.

Main definitions:
* `Notifier` — listeners, and the handles of the watches if they run;
* `Notifier.subscribe`, `Notifier.extend`, `Notifier.dispose` — starting, adding to and stopping
  watches;
* `NativeRoots` — the roots below which files are watched natively.
-/

namespace EnvDiscovery

/-- Listeners, and the handles of the watches if they run. -/
structure Notifier (α : Type) where
  emitter : Emitter α
  handles : Option (List Nat)

namespace Notifier

variable {α : Type}

/-- No listeners and no watches. -/
def empty : Notifier α := ⟨.empty, none⟩

/-- Whether watches run. -/
def isWatching (n : Notifier α) : Bool :=
  n.handles.isSome

/-- Registers a listener; the watches that `start` opens are kept if none were running. -/
def subscribe (n : Notifier α) (a : α) (start : List Nat) : Notifier α × Nat :=
  let (emitter, id) := n.emitter.add a
  (⟨emitter, some (n.handles.getD start)⟩, id)

/-- Adds watches to those that run. -/
def extend (n : Notifier α) (more : List Nat) : Notifier α :=
  { n with handles := n.handles.map (· ++ more) }

/-- Removes a listener; the watches go on. -/
def unsubscribe (n : Notifier α) (id : Nat) : Notifier α :=
  { n with emitter := n.emitter.remove id }

/-- Stops the watches; the listeners stay. -/
def dispose (n : Notifier α) : Notifier α :=
  { n with handles := none }

end Notifier

/-- The roots below which files are watched natively, in the spelling they were added in. -/
structure NativeRoots where
  roots : List Path
deriving DecidableEq

namespace NativeRoots

/-- Adds a root unless a path of the same components is there. -/
def add (n : NativeRoots) (root : Path) : NativeRoots :=
  if n.roots.any (·.sameComponents root) then n else ⟨n.roots ++ [root]⟩

/-- Removes the roots of the same components. -/
def remove (n : NativeRoots) (root : Path) : NativeRoots :=
  ⟨n.roots.filter (!·.sameComponents root)⟩

/-- Whether a directory is watched natively. -/
def isNative (n : NativeRoots) (dir : Path) : Bool :=
  n.roots.any (dir.within ·)

end NativeRoots

end EnvDiscovery
