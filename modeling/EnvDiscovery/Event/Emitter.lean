import EnvDiscovery.Event.Change

/-!
**Listeners.**

An event is delivered to the listeners that are registered when it is fired, in the order of their
registration, whatever they do meanwhile.

The registry of an emitter stands behind a lock. A registration lives as long as its handle is not
used up, and a listener may own handles of other registrations, which are dropped together with it.
A listener that is removed is dropped while the lock is held, unless a fire has a copy of it. If it
owns a handle then, that handle waits for the lock, and nothing goes on.

Main definitions:
* `Emitter` — registered listeners under numbers;
* `Hub` — an emitter behind a lock, with the owners of its handles and the copies that fires have;
* `Panel` — listeners by name that record what they hear and then act;
* `Panel.deliver`, `Panel.fire` — delivery.
-/

namespace EnvDiscovery

/-- Registered listeners, oldest first, and the number of the next registration. A counter `ν` of
finitely many numbers begins again after the last one. -/
structure Emitter (α : Type) (ν : Type := Nat) where
  next : ν
  listeners : List (ν × α)

namespace Emitter

variable {α ν : Type}

/-- No listeners. -/
def empty [OfNat ν 0] : Emitter α ν := ⟨0, []⟩

/-- Registers a listener under the next number. -/
def add [Add ν] [OfNat ν 1] (e : Emitter α ν) (a : α) : Emitter α ν × ν :=
  (⟨e.next + 1, e.listeners ++ [(e.next, a)]⟩, e.next)

/-- Removes a registration; once it is gone nothing changes. -/
def remove [BEq ν] (e : Emitter α ν) (id : ν) : Emitter α ν :=
  { e with listeners := e.listeners.filter fun (i, _) => i != id }

/-- The listeners, oldest first. -/
def current (e : Emitter α ν) : List α :=
  e.listeners.map Prod.snd

/-- The number of listeners. -/
def count (e : Emitter α ν) : Nat :=
  e.listeners.length

end Emitter

/-! ### The lock and the handles -/

/-- The handle of the registration of a number. It belongs to a client, or to the listener of the
number `owner`. -/
structure Handle where
  number : UInt64
  owner : Option UInt64
deriving DecidableEq, Repr

/-- An emitter behind a lock, with the handles that were not used up. A fire has a copy of every
listener until it has called it: `copies` are those of the fires under way, each with the number of
the fire, and `fires` counts all fires. A hub is `stuck` once its lock is never released. -/
structure Hub (α : Type) where
  emitter : Emitter α UInt64
  handles : List Handle
  fires : Nat
  copies : List (Nat × UInt64)
  stuck : Bool

namespace Hub

variable {α : Type}

/-- Nothing is registered and nothing was fired. -/
def empty : Hub α := ⟨.empty, [], 0, [], false⟩

/-- Whether a listener is registered. -/
def isRegistered (h : Hub α) (id : UInt64) : Bool :=
  h.emitter.listeners.any (·.1 == id)

/-- Whether a fire has a copy of a listener. -/
def isCopied (h : Hub α) (id : UInt64) : Bool :=
  h.copies.any (·.2 == id)

/-- Registers a listener. Its handle belongs to a client. -/
def subscribe (h : Hub α) (a : α) : Hub α × UInt64 :=
  let (emitter, id) := h.emitter.add a
  ({ h with emitter := emitter, handles := h.handles ++ [⟨id, none⟩] }, id)

/-- Whether a handle can be given to a listener: it is not used up, and the listener is there. -/
def canEntrust (h : Hub α) (number owner : UInt64) : Bool :=
  h.handles.any (·.number == number) && (h.isRegistered owner || h.isCopied owner)

/-- Gives a handle to a listener. -/
def entrust (h : Hub α) (number owner : UInt64) : Hub α :=
  if h.canEntrust number owner then
    { h with handles := h.handles.map fun x =>
        if x.number == number then ⟨number, some owner⟩ else x }
  else h

/-- Uses up a handle: its registration is removed while the lock is held. A listener of which no
fire has a copy is dropped at once, and a handle that it owns then waits for the lock. -/
def unsubscribe (h : Hub α) (id : UInt64) : Hub α :=
  if h.stuck then h
  else
    let handles := h.handles.filter (·.number != id)
    { h with
      emitter := h.emitter.remove id
      handles := handles
      stuck := h.isRegistered id && !h.isCopied id && handles.any (·.owner == some id) }

/-- Begins a fire, which takes a copy of every listener. -/
def beginFire (h : Hub α) : Hub α :=
  { h with
    fires := h.fires + 1
    copies := h.copies ++ h.emitter.listeners.map fun r => (h.fires, r.1) }

/-- A fire lets go of its copy of a listener. -/
def letGo (h : Hub α) (number : Nat) (id : UInt64) : Hub α :=
  { h with copies := h.copies.filter (· != (number, id)) }

/-- The handles of a listener that is dropped, since it is not registered and no fire has a copy of
it. -/
def orphans (h : Hub α) (id : UInt64) : List UInt64 :=
  if h.isRegistered id || h.isCopied id then []
  else (h.handles.filter (·.owner == some id)).map (·.number)

/-- A fire has called a listener and lets go of its copy. A listener that is dropped by this drops
its handles, and the lock is free then. -/
def release (h : Hub α) (number : Nat) (id : UInt64) : Hub α :=
  if h.stuck then h else ((h.letGo number id).orphans id).foldl unsubscribe (h.letGo number id)

end Hub

/-! ### Panels -/

/-- What a listener does after it has heard an event. -/
inductive ListenerAct where
  | nothing
  | panic
  | unsubscribe (name : String)
  | subscribe (name : String)
  | adopt (name : String)
  | refire
deriving DecidableEq, Repr

/-- A listener: its name, the only place it listens to if there is one, and what it does. -/
structure Listener where
  name : String
  scope : Option Path
  act : ListenerAct
deriving DecidableEq, Repr

/-- Listeners by name, and the handles that are kept under the names. A name may stand for several
registrations. Nothing is done with a panel whose hub is stuck. -/
structure Panel where
  hub : Hub Listener
  handles : List (String × List UInt64)
  seen : List (String × EnvChange)

namespace Panel

/-- No listeners. -/
def empty : Panel := ⟨.empty, [], []⟩

/-- The handles that are kept under a name. -/
def handlesOf (p : Panel) (name : String) : List UInt64 :=
  (p.handles.lookup name).getD []

/-- Keeps handles under a name. -/
def keep (p : Panel) (name : String) (ids : List UInt64) : Panel :=
  if p.hub.stuck then p else { p with handles := p.handles ++ [(name, ids)] }

/-- Drops the registrations of a name. -/
def unsubscribe (p : Panel) (name : String) : Panel :=
  if p.hub.stuck then p
  else
    { p with
      hub := (p.handlesOf name).foldl Hub.unsubscribe p.hub
      handles := p.handles.filter fun (n, _) => n != name }

/-- Registers a listener, then drops the older registrations of its name. -/
def subscribe (p : Panel) (l : Listener) : Panel :=
  if p.hub.stuck then p
  else
    let (hub, id) := p.hub.subscribe l
    ({ p with hub := hub }.unsubscribe l.name).keep l.name [id]

/-- Moves the registrations of some names to one name, whose older registrations are dropped. -/
def group (p : Panel) (name : String) (names : List String) : Panel :=
  if p.hub.stuck then p
  else
    let moved := names.eraseDups.flatMap p.handlesOf
    ({ p with handles := p.handles.filter fun (n, _) => !names.contains n }.unsubscribe name).keep
      name moved

/-- Gives the handles of a name to a listener. -/
def adopt (p : Panel) (owner : UInt64) (name : String) : Panel :=
  if p.hub.stuck then p
  else
    { p with
      hub := (p.handlesOf name).foldl (fun h id => h.entrust id owner) p.hub
      handles := p.handles.filter fun (n, _) => n != name }

/-- Whether a listener hears an event. -/
def hears (l : Listener) (e : EnvChange) : Bool :=
  match l.scope with
  | none => true
  | some location => e.isIn location

/-- Calls a listener, which records the event and acts. `refire` is what firing again does. -/
def call (refire : Panel → Panel) (e : EnvChange) (p : Panel) (r : UInt64 × Listener) : Panel :=
  if p.hub.stuck || !hears r.2 e then p
  else
    let p := { p with seen := p.seen ++ [(r.2.name, e)] }
    match r.2.act with
    | .nothing | .panic => p
    | .unsubscribe name => p.unsubscribe name
    | .subscribe name => p.subscribe ⟨name, none, .nothing⟩
    | .adopt name => p.adopt r.1 name
    | .refire => refire p

/-- Delivers an event of a fire to one listener, of which the fire then lets go. -/
def deliver (refire : Panel → Panel) (e : EnvChange) (number : Nat) (p : Panel)
    (r : UInt64 × Listener) : Panel :=
  let p := p.call refire e r
  { p with hub := p.hub.release number r.1 }

/-- Fires an event at the listeners that are registered. -/
def fireWith (refire : Panel → Panel) (p : Panel) (e : EnvChange) : Panel :=
  if p.hub.stuck then p
  else p.hub.emitter.listeners.foldl (deliver refire e p.hub.fires)
    { p with hub := p.hub.beginFire }

/-- Fires an event that no listener fires again. -/
def fireOnce (p : Panel) (e : EnvChange) : Panel :=
  p.fireWith id e

/-- Fires an event. A listener that fires again does so for an event without a kind, and then fires
one with a kind. -/
def fire (p : Panel) (e : EnvChange) : Panel :=
  match e.kind with
  | some _ => p.fireOnce e
  | none => p.fireWith (fun p => p.fireOnce (.ofKind (some .custom))) e

/-- Takes what has been recorded. -/
def takeSeen (p : Panel) : List (String × EnvChange) × Panel :=
  (p.seen, { p with seen := [] })

end Panel

end EnvDiscovery
