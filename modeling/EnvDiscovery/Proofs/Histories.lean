import EnvDiscovery.Event.Emitter
import Mathlib.Data.List.Basic

/-!
**Histories of an emitter.**

Listeners may subscribe, unsubscribe and fire while an event is delivered to them, they may own
handles of other registrations, and they may panic. What a client or a called listener does is a
tree: it works on a state of its own, gets the number of each subscription it makes, and fires
events; a fire says what each called listener does in turn. A panic ends what a listener does and
nothing else. Every act is noted with the listeners that are registered after it. An unsubscription
that never returns is the last thing that is noted.

Main definitions:
* `Emitter.Conduct`, `Emitter.Conduct.exec` — what is done with an emitter, and what comes of it;
* `Emitter.standing` — the subscriptions that were not taken back, without a look at the emitter;
* `Emitter.Owns`, `Emitter.Copied`, `Emitter.Blocks` — who owns a handle, which fires have a copy of
  a listener, and when an unsubscription does not return, all of it told by the history alone;
* `Emitter.Orderly` — what a history has to say of fires, calls and subscriptions.

Main results:
* `Emitter.standing_append` — what is taken back later does not stand;
* `Emitter.World.Sound.advance` — an entry that accords with the hub keeps it as the history tells;
* `Emitter.World.Sound.exec` — **the registered listeners are the subscriptions that stand**, and
  the handles and copies are those that the history tells of.
-/

namespace EnvDiscovery.Emitter

/-! ### Conducts -/

/-- What is done with an emitter. `consult` changes the state `σ` and goes on by what it was before;
`fire` says what each of the called listeners does. -/
inductive Conduct (σ α ε : Type) where
  | done
  | panic
  | consult (change : σ → σ) (rest : σ → Conduct σ α ε)
  | subscribe (a : α) (rest : UInt64 → Conduct σ α ε)
  | entrust (number owner : UInt64) (rest : Conduct σ α ε)
  | unsubscribe (id : UInt64) (rest : Conduct σ α ε)
  | fire (e : ε) (body : UInt64 × α → Conduct σ α ε) (rest : Conduct σ α ε)

/-- What a history notes. Fires are numbered, and a call belongs to a fire. -/
inductive Entry (α ε : Type) where
  | subscribed (r : UInt64 × α)
  | entrusted (number owner : UInt64)
  | unsubscribed (id : UInt64)
  /-- An unsubscription that never returns. -/
  | stalled (id : UInt64)
  | fired (number : Nat) (e : ε)
  | called (number : Nat) (r : UInt64 × α) (e : ε)
  /-- A fire lets go of its copy of a listener. -/
  | released (number : Nat) (id : UInt64)
  | returned (number : Nat)
  | panicked

/-- An entry, and the listeners that are registered after it. -/
structure Moment (α ε : Type) where
  entry : Entry α ε
  registered : List (UInt64 × α)

/-- A hub, the state of its clients and what has happened. -/
structure World (σ α ε : Type) where
  hub : Hub α
  client : σ
  history : List (Moment α ε)

section Exec

variable {σ α ε : Type}

namespace World

/-- Nothing has happened. -/
def start (client : σ) : World σ α ε := ⟨.empty, client, []⟩

/-- Notes an entry with the hub after it, unless nothing goes on. -/
def advance (w : World σ α ε) (hub : Hub α) (entry : Entry α ε) : World σ α ε :=
  if w.hub.stuck then w
  else { w with hub := hub, history := w.history ++ [⟨entry, hub.emitter.listeners⟩] }

/-- Notes an entry that changes nothing. -/
def note (w : World σ α ε) (entry : Entry α ε) : World σ α ε :=
  w.advance w.hub entry

/-- Registers a listener. -/
def subscribe (w : World σ α ε) (a : α) : World σ α ε :=
  w.advance (w.hub.subscribe a).1 (.subscribed ((w.hub.subscribe a).2, a))

/-- Gives a handle to a listener. -/
def entrust (w : World σ α ε) (number owner : UInt64) : World σ α ε :=
  if w.hub.canEntrust number owner then w.advance (w.hub.entrust number owner)
    (.entrusted number owner)
  else w

/-- Removes a registration. -/
def unsubscribe (w : World σ α ε) (id : UInt64) : World σ α ε :=
  w.advance (w.hub.unsubscribe id)
    (if (w.hub.unsubscribe id).stuck then .stalled id else .unsubscribed id)

/-- Begins a fire. -/
def openFire (w : World σ α ε) (e : ε) : World σ α ε :=
  w.advance w.hub.beginFire (.fired w.hub.fires e)

/-- A fire lets go of its copy of a listener. The handles of a listener that is dropped are used
up. -/
def release (w : World σ α ε) (number : Nat) (id : UInt64) : World σ α ε :=
  let u := w.advance (w.hub.letGo number id) (.released number id)
  (u.hub.orphans id).foldl unsubscribe u

end World

/-- What comes of a conduct. A fire calls the listeners that are registered when it begins. -/
def Conduct.exec : Conduct σ α ε → World σ α ε → World σ α ε
  | done, w => w
  | panic, w => w.note .panicked
  | consult change rest, w =>
    if w.hub.stuck then w else (rest w.client).exec { w with client := change w.client }
  | subscribe a rest, w => (rest (w.hub.subscribe a).2).exec (w.subscribe a)
  | entrust number owner rest, w => rest.exec (w.entrust number owner)
  | unsubscribe id rest, w => rest.exec (w.unsubscribe id)
  | fire e body rest, w =>
    rest.exec ((w.hub.emitter.listeners.foldl
      (fun u r => ((body r).exec (u.note (.called w.hub.fires r e))).release w.hub.fires r.1)
      (w.openFire e)).note (.returned w.hub.fires))

/-- Conducts one after another, each of which may end in a panic. -/
def World.run (w : World σ α ε) (conducts : List (Conduct σ α ε)) : World σ α ε :=
  conducts.foldl (fun w c => c.exec w) w

end Exec

/-! ### What histories say -/

section History

variable {α ε : Type}

/-- The subscription that an entry notes. -/
def Entry.subscription? : Entry α ε → Option (UInt64 × α)
  | subscribed r => some r
  | _ => none

/-- Whether an entry takes back the subscription of a number. -/
def Entry.takesBack (id : UInt64) : Entry α ε → Bool
  | unsubscribed i | stalled i => i == id
  | _ => false

/-- Whether an entry says what becomes of the handle of a number. -/
def Entry.moves (number : UInt64) : Entry α ε → Bool
  | entrusted n _ => n == number
  | entry => entry.takesBack number

/-- The number of the fire that an entry begins. -/
def Entry.fire? : Entry α ε → Option Nat
  | fired number _ => some number
  | _ => none

/-- The number of the fire that an entry ends. -/
def Entry.return? : Entry α ε → Option Nat
  | returned number => some number
  | _ => none

/-- The call for a fire that an entry notes: the listener and the event. -/
def Entry.callOf? (number : Nat) : Entry α ε → Option ((UInt64 × α) × ε)
  | called n r e => if n = number then some (r, e) else none
  | _ => none

/-- The subscriptions of a history, oldest first. -/
def subscriptions (h : List (Moment α ε)) : List (UInt64 × α) :=
  h.filterMap (·.entry.subscription?)

/-- The numbers of the fires of a history. -/
def fires (h : List (Moment α ε)) : List Nat :=
  h.filterMap (·.entry.fire?)

/-- The numbers of the fires that a history brings to their end. -/
def returns (h : List (Moment α ε)) : List Nat :=
  h.filterMap (·.entry.return?)

/-- The calls of a history for one fire, oldest first. -/
def callsOf (number : Nat) (h : List (Moment α ε)) : List ((UInt64 × α) × ε) :=
  h.filterMap (·.entry.callOf? number)

/-- Whether a history takes back the subscription of a number. -/
def takesBack (h : List (Moment α ε)) (id : UInt64) : Bool :=
  h.any (·.entry.takesBack id)

/-- The subscriptions of a history that are not taken back later, oldest first. -/
def standing : List (Moment α ε) → List (UInt64 × α)
  | [] => []
  | m :: h => (m.entry.subscription?.filter fun r => !takesBack h r.1).toList ++ standing h

/-- An unsubscription in the history never returns. -/
def Stalls (h : List (Moment α ε)) : Prop :=
  ∃ m ∈ h, ∃ id, m.entry = .stalled id

/-- There was a moment with `p`, and none with `q` after it. -/
def Since (p q : Moment α ε → Prop) (h : List (Moment α ε)) : Prop :=
  ∃ before m after, h = before ++ m :: after ∧ p m ∧ ∀ m' ∈ after, ¬q m'

/-- A listener owns the handle of a number: it was given the handle, and nothing has become of it
since. -/
def Owns (h : List (Moment α ε)) (owner number : UInt64) : Prop :=
  Since (·.entry = .entrusted number owner) (·.entry.moves number = true) h

/-- A fire has a copy of a listener: it began when the listener was registered, and has not let go
of it. -/
def Copied (h : List (Moment α ε)) (number : Nat) (id : UInt64) : Prop :=
  Since (fun m => m.entry.fire? = some number ∧ ∃ a, (id, a) ∈ m.registered)
    (·.entry = .released number id) h

/-- After the history, to take back a subscription blocks: the registration stands, no fire has a
copy of its listener, and the listener owns the handle of another registration. -/
def Blocks (h : List (Moment α ε)) (id : UInt64) : Prop :=
  (∃ a, (id, a) ∈ standing h) ∧ (∀ number, ¬Copied h number id) ∧ ∃ other, other ≠ id ∧
    Owns h id other

/-- The history neither calls a listener for a fire nor brings the fire to its end. -/
def Silent (number : Nat) (h : List (Moment α ε)) : Prop :=
  callsOf number h = [] ∧ number ∉ returns h

/-- What a history has to say of a fire after it began: the registered listeners are called in their
order and once each, all of them before the fire returns, and it returns unless an unsubscription
never does. -/
structure Served (number : Nat) (e : ε) (registered : List (UInt64 × α)) (h : List (Moment α ε)) :
    Prop where
  called : callsOf number h <+: registered.map (·, e)
  all : number ∈ returns h → callsOf number h = registered.map (·, e)
  returns : ¬Stalls h → number ∈ returns h

/-- What a history has to say of fires, calls and subscriptions. -/
structure Orderly (h : List (Moment α ε)) : Prop where
  /-- No number is used for two subscriptions. -/
  distinct : ((subscriptions h).map Prod.fst).Nodup
  /-- Fires are numbered in their order. -/
  numbered : (fires h).Pairwise (· < ·)
  /-- Registered are the subscriptions that stand. -/
  registered : ∀ before m after, h = before ++ m :: after → m.registered = standing (before ++ [m])
  /-- A fire calls the listeners that are registered at its moment, in their order and once each. -/
  calls : ∀ before m after number e, h = before ++ m :: after → m.entry = .fired number e →
    Silent number before ∧ Served number e m.registered after
  /-- There are no other calls. -/
  answered : ∀ number, ∀ call ∈ callsOf number h, ∃ m ∈ h, m.entry = .fired number call.2
  /-- Unsubscribing removes one registration and no other, or changes nothing if that registration
  is not there. -/
  removes : ∀ before m after id, h = before ++ m :: after → m.entry.takesBack id = true →
    (∃ older a newer, standing before = older ++ (id, a) :: newer ∧ m.registered = older ++ newer) ∨
    ((∀ a, (id, a) ∉ standing before) ∧ m.registered = standing before)
  /-- A registration that was removed does not come back, whenever its removal is repeated. -/
  gone : ∀ before m after id, h = before ++ m :: after → m.entry.takesBack id = true →
    (∃ a, (id, a) ∈ subscriptions before) → ∀ later ∈ m :: after, ∀ a, (id, a) ∉ later.registered
  /-- Unsubscribing returns unless the removed listener is dropped with a handle of its own. -/
  blocks : ∀ before m after id, h = before ++ m :: after → m.entry.takesBack id = true →
    (m.entry = .stalled id ↔ Blocks before id)
  /-- Nothing happens after an unsubscription that does not return. -/
  final : ∀ before m after id, h = before ++ m :: after → m.entry = .stalled id → after = []

theorem subscriptions_cons (m : Moment α ε) (h : List (Moment α ε)) :
    subscriptions (m :: h) = m.entry.subscription?.toList ++ subscriptions h := by
  rw [subscriptions, List.filterMap_cons]
  cases m.entry.subscription? <;> rfl

@[simp] theorem subscriptions_append (h k : List (Moment α ε)) :
    subscriptions (h ++ k) = subscriptions h ++ subscriptions k := List.filterMap_append

@[simp] theorem fires_append (h k : List (Moment α ε)) : fires (h ++ k) = fires h ++ fires k :=
  List.filterMap_append

@[simp] theorem returns_append (h k : List (Moment α ε)) :
    returns (h ++ k) = returns h ++ returns k :=
  List.filterMap_append

@[simp] theorem callsOf_append (number : Nat) (h k : List (Moment α ε)) :
    callsOf number (h ++ k) = callsOf number h ++ callsOf number k := List.filterMap_append

@[simp] theorem takesBack_append (h k : List (Moment α ε)) (id : UInt64) :
    takesBack (h ++ k) id = (takesBack h id || takesBack k id) := List.any_append

theorem stalls_append (h k : List (Moment α ε)) : Stalls (h ++ k) ↔ Stalls h ∨ Stalls k := by
  simp only [Stalls, List.mem_append, or_and_right, exists_or]

theorem silent_append {number : Nat} {h k : List (Moment α ε)} :
    Silent number (h ++ k) ↔ Silent number h ∧ Silent number k := by
  simp only [Silent, callsOf_append, returns_append, List.append_eq_nil_iff,
    List.mem_append, not_or]
  tauto

theorem silent_nil (number : Nat) : Silent number ([] : List (Moment α ε)) :=
  ⟨rfl, nofun⟩

theorem mem_fires {h : List (Moment α ε)} {m : Moment α ε} {number : Nat} {e : ε} (hm : m ∈ h)
    (he : m.entry = .fired number e) : number ∈ fires h :=
  List.mem_filterMap.2 ⟨m, hm, by rw [he]; rfl⟩

/-- **What is taken back later does not stand.** -/
theorem standing_append (h k : List (Moment α ε)) :
    standing (h ++ k) = (standing h).filter (fun r => !takesBack k r.1) ++ standing k := by
  induction h with
  | nil => rfl
  | cons m h ih =>
      rw [List.cons_append, standing, standing, ih, List.filter_append, List.append_assoc]
      congr 1
      cases m.entry.subscription? with
      | none => rfl
      | some r =>
          by_cases hh : takesBack h r.1 = true <;> by_cases hk : takesBack k r.1 = true <;>
            simp [Option.filter, hh, hk]

theorem standing_sublist (h : List (Moment α ε)) : (standing h).Sublist (subscriptions h) := by
  induction h with
  | nil => exact .slnil
  | cons m h ih =>
      rw [standing, subscriptions_cons]
      refine List.Sublist.append ?_ ih
      cases m.entry.subscription? with
      | none => exact .slnil
      | some r => cases hback : takesBack h r.1 <;> simp [Option.filter, hback]

/-- What stands after one more moment. -/
theorem standing_concat (h : List (Moment α ε)) (m : Moment α ε) :
    standing (h ++ [m]) =
      (standing h).filter (fun r => !m.entry.takesBack r.1) ++ m.entry.subscription?.toList := by
  have hone : standing [m] = m.entry.subscription?.toList := by
    cases hsub : m.entry.subscription? <;> simp [standing, hsub, takesBack, Option.filter]
  rw [standing_append, hone]
  simp [takesBack]

theorem standing_concat_of_takesBack (h : List (Moment α ε)) {m : Moment α ε} {id : UInt64}
    (hentry : m.entry.takesBack id = true) :
    standing (h ++ [m]) = (standing h).filter (·.1 != id) := by
  have hother : m.entry.subscription? = none ∧ ∀ i, m.entry.takesBack i = (i == id) := by
    cases hm : m.entry <;> simp_all [Entry.takesBack, Entry.subscription?, Bool.beq_comm]
  rw [standing_concat, hother.1, Option.toList_none, List.append_nil]
  exact List.filter_congr fun r _ => by rw [hother.2]; rfl

/-- A cut through two joined lists lies in the first or in the second. -/
theorem cut_append {h k before after : List (Moment α ε)} {m : Moment α ε}
    (heq : h ++ k = before ++ m :: after) :
    (∃ rest, h = before ++ m :: rest ∧ after = rest ++ k) ∨
      ∃ rest, before = h ++ rest ∧ k = rest ++ m :: after := by
  rcases List.append_eq_append_iff.1 heq with ⟨rest, hbefore, hk⟩ | ⟨rest, hh, hafter⟩
  · exact .inr ⟨rest, hbefore, hk⟩
  · cases rest with
    | nil => exact .inr ⟨[], by simpa using hh.symm, by simpa using hafter.symm⟩
    | cons x rest =>
        obtain ⟨rfl, rfl⟩ := List.cons.inj hafter
        exact .inl ⟨rest, hh, rfl⟩

/-- A cut through a list with one more element lies before that element or at it. -/
theorem cut_concat {h before after : List (Moment α ε)} {m last : Moment α ε}
    (heq : h ++ [last] = before ++ m :: after) :
    (∃ rest, h = before ++ m :: rest ∧ after = rest ++ [last]) ∨ before = h ∧ m = last ∧
    after = [] := by
  rcases cut_append heq with hfirst | ⟨rest, rfl, hlast⟩
  · exact .inl hfirst
  · cases rest with
    | nil =>
        obtain ⟨rfl, rfl⟩ := List.cons.inj hlast
        exact .inr ⟨List.append_nil h, rfl, rfl⟩
    | cons x rest => simp at hlast

/-- One more moment after `p`, or `p` itself. -/
theorem since_concat {p q : Moment α ε → Prop} {h : List (Moment α ε)} {m : Moment α ε} :
    Since p q (h ++ [m]) ↔ p m ∨ Since p q h ∧ ¬q m := by
  constructor
  · rintro ⟨before, m', after, heq, hp, hq⟩
    rcases cut_concat heq with ⟨rest, rfl, rfl⟩ | ⟨rfl, rfl, rfl⟩
    · have hrest := List.forall_mem_append.1 hq
      exact .inr ⟨⟨before, m', rest, rfl, hp, hrest.1⟩, hrest.2 m (List.mem_singleton_self m)⟩
    · exact .inl hp
  · rintro (hp | ⟨⟨before, m', after, rfl, hp, hq⟩, hm⟩)
    · exact ⟨h, m, [], rfl, hp, nofun⟩
    · refine ⟨before, m', after ++ [m], by simp, hp, List.forall_mem_append.2 ⟨hq, ?_⟩⟩
      simpa using hm

theorem owns_concat {h : List (Moment α ε)} {m : Moment α ε} {owner number : UInt64} :
    Owns (h ++ [m]) owner number ↔
      m.entry = .entrusted number owner ∨ Owns h owner number ∧ ¬m.entry.moves number = true :=
  since_concat

theorem copied_concat {h : List (Moment α ε)} {m : Moment α ε} {number : Nat} {id : UInt64} :
    Copied (h ++ [m]) number id ↔
      (m.entry.fire? = some number ∧ ∃ a, (id, a) ∈ m.registered) ∨
        Copied h number id ∧ ¬m.entry = .released number id :=
  since_concat

theorem not_since_nil {p q : Moment α ε → Prop} : ¬Since p q [] := by
  rintro ⟨before, m, after, heq, -⟩
  simp at heq

end History

/-! ### Registrations -/

section Registrations

variable {σ α ε : Type} {w : World σ α ε}

/-- The hub is as the history tells. -/
structure World.Sound (w : World σ α ε) : Prop where
  listeners : w.hub.emitter.listeners = standing w.history
  next : w.hub.emitter.next = UInt64.ofNat (subscriptions w.history).length
  numbers : (subscriptions w.history).map Prod.fst =
    (List.range (subscriptions w.history).length).map UInt64.ofNat
  registered : ∀ before m after, w.history = before ++ m :: after →
    m.registered = standing (before ++ [m])
  handles : w.hub.handles.map (·.number) = w.hub.emitter.listeners.map Prod.fst
  owners : ∀ number owner, ⟨number, some owner⟩ ∈ w.hub.handles ↔ Owns w.history owner number
  copies : ∀ number id, (number, id) ∈ w.hub.copies ↔ Copied w.history number id
  blocks : ∀ before m after id, w.history = before ++ m :: after → m.entry.takesBack id = true →
    (m.entry = .stalled id ↔ Blocks before id)
  stuck : w.hub.stuck = true ↔ Stalls w.history
  final : ∀ before m after id, w.history = before ++ m :: after → m.entry = .stalled id → after = []

namespace World

theorem advance_of_stuck (h : w.hub.stuck = true) (hub : Hub α) (entry : Entry α ε) :
    w.advance hub entry = w := by
  rw [advance, if_pos h]

theorem advance_of_not_stuck (h : w.hub.stuck = false) (hub : Hub α) (entry : Entry α ε) :
    w.advance hub entry =
      { w with hub := hub, history := w.history ++ [⟨entry, hub.emitter.listeners⟩] } := by
  rw [advance, if_neg (by simp [h])]

theorem release_of_stuck (h : w.hub.stuck = true) (number : Nat) (id : UInt64) :
    w.release number id = w := by
  rw [release, advance_of_stuck h]
  exact List.foldl_fixed' (fun i => advance_of_stuck h _ _) _

/-- Nothing comes of a conduct once an unsubscription does not return. -/
theorem exec_of_stuck (c : Conduct σ α ε) (h : w.hub.stuck = true) : c.exec w = w := by
  induction c with
  | done => rfl
  | panic => exact advance_of_stuck h _ _
  | consult change rest ih => rw [Conduct.exec, if_pos h]
  | subscribe a rest ih => rw [Conduct.exec, subscribe, advance_of_stuck h, ih]
  | entrust number owner rest ih =>
      rw [Conduct.exec, entrust, advance_of_stuck h, ite_self, ih]
  | unsubscribe id rest ih => rw [Conduct.exec, unsubscribe, advance_of_stuck h, ih]
  | fire e body rest ihbody ihrest =>
      rw [Conduct.exec, openFire, advance_of_stuck h, List.foldl_fixed', note,
        advance_of_stuck h, ihrest]
      intro r
      rw [note, advance_of_stuck h, ihbody, release_of_stuck h]

theorem Sound.start (client : σ) : (start client : World σ α ε).Sound where
  listeners := rfl
  next := rfl
  numbers := rfl
  registered before m after h := by simp [World.start] at h
  handles := rfl
  owners _ _ := iff_of_false nofun not_since_nil
  copies _ _ := iff_of_false nofun not_since_nil
  blocks before m after id h := by simp [World.start] at h
  stuck := iff_of_false nofun (by simp [Stalls, World.start])
  final before m after id h := by simp [World.start] at h

/-- What an entry has to say of the hub before and after it. -/
structure Accords (w : World σ α ε) (hub : Hub α) (entry : Entry α ε) : Prop where
  listeners : hub.emitter.listeners =
    w.hub.emitter.listeners.filter (fun r => !entry.takesBack r.1) ++ entry.subscription?.toList
  next : hub.emitter.next = w.hub.emitter.next + UInt64.ofNat entry.subscription?.toList.length
  number : ∀ r ∈ entry.subscription?, r.1 = w.hub.emitter.next
  handles : hub.handles.map (·.number) = hub.emitter.listeners.map Prod.fst
  owners : ∀ number owner, ⟨number, some owner⟩ ∈ hub.handles ↔
    entry = .entrusted number owner ∨ ⟨number, some owner⟩ ∈ w.hub.handles ∧
      ¬entry.moves number = true
  copies : ∀ number id, (number, id) ∈ hub.copies ↔
    (entry.fire? = some number ∧ ∃ a, (id, a) ∈ hub.emitter.listeners) ∨
      (number, id) ∈ w.hub.copies ∧ ¬entry = .released number id
  blocks : ∀ id, entry.takesBack id = true → (entry = .stalled id ↔ Blocks w.history id)
  stuck : hub.stuck = true ↔ ∃ id, entry = .stalled id

/-- **The step**: an entry that accords with the hub keeps it as the history tells. Of a stuck hub
nothing is to be shown, since nothing comes of the entry. -/
theorem Sound.advance (h : w.Sound) {hub : Hub α} {entry : Entry α ε}
    (haccords : w.hub.stuck = false → w.Accords hub entry) : (w.advance hub entry).Sound := by
  cases hstuck : w.hub.stuck with
  | true =>
      rw [advance_of_stuck hstuck]
      exact h
  | false =>
      have ha := haccords hstuck
      have hopen : ¬Stalls w.history := fun hstalls => by simp [h.stuck.2 hstalls] at hstuck
      let m : Moment α ε := ⟨entry, hub.emitter.listeners⟩
      have hcount : subscriptions (w.history ++ [m]) = subscriptions w.history ++
          entry.subscription?.toList := by
        rw [subscriptions_append, subscriptions_cons]
        exact congrArg _ (List.append_nil _)
      have hstanding : hub.emitter.listeners = standing (w.history ++ [m]) := by
        rw [ha.listeners, h.listeners, standing_concat]
      rw [advance_of_not_stuck hstuck]
      exact {
        listeners := hstanding
        next := by
          rw [hcount, ha.next, h.next, List.length_append, UInt64.ofNat_add]
        numbers := by
          rw [hcount, List.map_append, h.numbers]
          cases hsub : entry.subscription? with
          | none => simp
          | some r =>
              have hnumber : r.1 = UInt64.ofNat (subscriptions w.history).length :=
                (ha.number r hsub).trans h.next
              simp [List.range_succ, hnumber]
        registered := by
          intro before m' after hcut
          rcases cut_concat hcut with ⟨rest, hhistory, -⟩ | ⟨rfl, rfl, -⟩
          · exact h.registered before m' rest hhistory
          · exact hstanding
        handles := ha.handles
        owners := by
          intro number owner
          rw [ha.owners, h.owners]
          exact (owns_concat (m := m)).symm
        copies := by
          intro number id
          rw [ha.copies, h.copies]
          exact (copied_concat (m := m)).symm
        blocks := by
          intro before m' after id hcut hback
          rcases cut_concat hcut with ⟨rest, hhistory, -⟩ | ⟨rfl, rfl, -⟩
          · exact h.blocks before m' rest id hhistory hback
          · exact ha.blocks id hback
        stuck := by
          rw [ha.stuck, stalls_append, or_iff_right hopen]
          simp [Stalls]
        final := by
          intro before m' after id hcut hentry
          rcases cut_concat hcut with ⟨rest, hhistory, -⟩ | ⟨-, -, hlast⟩
          · exact absurd ⟨m', hhistory ▸ List.mem_append_right _ List.mem_cons_self,
              id, hentry⟩ hopen
          · exact hlast }

/-- An entry that changes neither the registrations nor the handles. -/
theorem Sound.accords_of_same (h : w.Sound) (hopen : w.hub.stuck = false) {hub : Hub α}
    {entry : Entry α ε} (hemitter : hub.emitter = w.hub.emitter)
    (hhandles : hub.handles = w.hub.handles) (hstuck : hub.stuck = w.hub.stuck)
    (hsub : entry.subscription? = none) (hmoves : ∀ number, entry.moves number = false)
    (hcopies : ∀ number id, (number, id) ∈ hub.copies ↔
      (entry.fire? = some number ∧ ∃ a, (id, a) ∈ hub.emitter.listeners) ∨
        (number, id) ∈ w.hub.copies ∧ ¬entry = .released number id) :
    w.Accords hub entry := by
  have hback : ∀ id, entry.takesBack id = false := by
    intro id
    have hmove := hmoves id
    cases entry <;> first | rfl | exact hmove
  have hentrusted : ∀ number owner, entry ≠ .entrusted number owner := by
    rintro number owner rfl
    simpa [Entry.moves] using hmoves number
  refine ⟨?_, ?_, ?_, ?_, ?_, hcopies, ?_, ?_⟩
  · simp [hemitter, hsub, hback]
  · simp [hemitter, hsub]
  · simp [hsub]
  · rw [hhandles, hemitter, h.handles]
  · intro number owner
    simp [hhandles, hentrusted, hmoves]
  · intro id hid
    rw [hback] at hid
    cases hid
  · rw [hstuck, hopen]
    refine iff_of_false nofun ?_
    rintro ⟨id, rfl⟩
    simpa [Entry.takesBack] using hback id

theorem Sound.note (h : w.Sound) {entry : Entry α ε} (hsub : entry.subscription? = none)
    (hmoves : ∀ number, entry.moves number = false) (hfire : entry.fire? = none)
    (hreleased : ∀ number id, entry ≠ .released number id) : (w.note entry).Sound := by
  refine h.advance fun hopen => h.accords_of_same hopen rfl rfl rfl hsub hmoves ?_
  simp [hfire, hreleased]

theorem Sound.openFire (h : w.Sound) (e : ε) : (w.openFire e).Sound := by
  refine h.advance fun hopen => h.accords_of_same hopen rfl rfl rfl rfl (fun _ => rfl) ?_
  intro number id
  simp [Hub.beginFire, Entry.fire?, or_comm, and_comm]

theorem Sound.letGo (h : w.Sound) (number : Nat) (id : UInt64) :
    (w.advance (w.hub.letGo number id) (.released number id)).Sound := by
  refine h.advance fun hopen => h.accords_of_same hopen rfl rfl rfl rfl (fun _ => rfl) ?_
  intro n i
  have hsame : ¬(n, i) = (number, id) ↔ ¬(Entry.released number id : Entry α ε) =
      .released n i := by
    rw [Prod.mk.injEq, Entry.released.injEq, eq_comm, eq_comm (a := i)]
  rw [Hub.letGo, List.mem_filter, bne_iff_ne, Ne, hsame]
  simp [Entry.fire?]

theorem Sound.subscribe (h : w.Sound) (a : α) : (w.subscribe a).Sound := by
  refine h.advance fun hopen => ⟨?_, rfl, ?_, ?_, ?_, ?_, nofun, ?_⟩
  · simp [Hub.subscribe, add, Entry.subscription?, Entry.takesBack]
  · intro r hr
    obtain rfl := Option.some_inj.1 hr
    rfl
  · simp [Hub.subscribe, add, h.handles]
  · intro number owner
    simp [Hub.subscribe, Entry.moves, Entry.takesBack]
  · intro number id
    simp [Hub.subscribe, Entry.fire?]
  · simp [Hub.subscribe, hopen]

theorem Sound.entrust (h : w.Sound) (number owner : UInt64) : (w.entrust number owner).Sound := by
  rw [World.entrust]
  split
  case isFalse => exact h
  case isTrue hcan =>
    have hhub : w.hub.entrust number owner = { w.hub with handles := w.hub.handles.map fun x =>
        if x.number == number then ⟨number, some owner⟩ else x } := if_pos hcan
    have hlive : ∃ x ∈ w.hub.handles, x.number = number := by
      simpa using (Bool.and_eq_true_iff.1 hcan).1
    rw [hhub]
    refine h.advance fun hopen => ⟨?_, ?_, nofun, ?_, ?_, ?_, nofun, ?_⟩
    · simp [Entry.subscription?, Entry.takesBack]
    · simp [Entry.subscription?]
    · rw [← h.handles, List.map_map]
      refine List.map_congr_left fun x _ => ?_
      by_cases hx : x.number = number <;> simp [hx]
    · intro n o
      rw [List.mem_map, Entry.entrusted.injEq]
      constructor
      · rintro ⟨x, hx, heq⟩
        by_cases hnumber : x.number = number
        · rw [if_pos (by simp [hnumber]), Handle.mk.injEq, Option.some_inj] at heq
          exact .inl heq
        · rw [if_neg (by simp [hnumber])] at heq
          subst heq
          exact .inr ⟨hx, by simpa [Entry.moves] using Ne.symm hnumber⟩
      · rintro (⟨rfl, rfl⟩ | ⟨hx, hmoves⟩)
        · obtain ⟨x, hx, hnumber⟩ := hlive
          exact ⟨x, hx, if_pos (by simp [hnumber])⟩
        · refine ⟨_, hx, if_neg fun hnumber => hmoves ?_⟩
          exact beq_iff_eq.2 (beq_iff_eq.1 hnumber).symm
    · intro n id
      simp [Entry.fire?]
    · simp [hopen]

/-- Whether an unsubscription blocks can be told from the hub. -/
theorem Sound.blocks_iff (h : w.Sound) (id : UInt64) :
    (w.hub.isRegistered id && !w.hub.isCopied id &&
      (w.hub.handles.filter (·.number != id)).any (·.owner == some id)) = true ↔
        Blocks w.history id := by
  have hregistered : w.hub.isRegistered id = true ↔ ∃ a, (id, a) ∈ standing w.history := by
    rw [← h.listeners]
    simp [Hub.isRegistered]
  have hcopied : w.hub.isCopied id = false ↔ ∀ number, ¬Copied w.history number id := by
    simp only [← h.copies]
    rw [Hub.isCopied, List.any_eq_false]
    constructor
    · intro hnone number hmem
      exact hnone _ hmem (beq_self_eq_true id)
    · rintro hnone ⟨number, i⟩ hmem hid
      obtain rfl := beq_iff_eq.1 hid
      exact hnone number hmem
  have howned : (w.hub.handles.filter (·.number != id)).any (·.owner == some id) = true ↔
      ∃ other, other ≠ id ∧ Owns w.history id other := by
    simp only [← h.owners]
    rw [List.any_eq_true]
    constructor
    · rintro ⟨⟨other, owner⟩, hmem, howner⟩
      obtain rfl := beq_iff_eq.1 howner
      obtain ⟨hhandle, hother⟩ := List.mem_filter.1 hmem
      exact ⟨other, bne_iff_ne.1 hother, hhandle⟩
    · rintro ⟨other, hother, hhandle⟩
      exact ⟨_, List.mem_filter.2 ⟨hhandle, bne_iff_ne.2 hother⟩, beq_self_eq_true _⟩
  rw [Bool.and_eq_true, Bool.and_eq_true, Bool.not_eq_true', hregistered, hcopied,
    howned, and_assoc]
  rfl

/-- An entry that takes back one subscription, which blocks or does not. -/
theorem Sound.accords_of_takesBack (h : w.Sound) {hub : Hub α} {entry : Entry α ε} {id : UInt64}
    (hemitter : hub.emitter = w.hub.emitter.remove id)
    (hhandles : hub.handles = w.hub.handles.filter (·.number != id))
    (hcopies : hub.copies = w.hub.copies) (hentry : entry = .stalled id ∧ hub.stuck = true ∧
      Blocks w.history id ∨
      entry = .unsubscribed id ∧ hub.stuck = false ∧ ¬Blocks w.history id) :
    w.Accords hub entry := by
  have hback : ∀ i, entry.takesBack i = (id == i) := by
    intro i
    rcases hentry with ⟨rfl, -⟩ | ⟨rfl, -⟩ <;> rfl
  have hmoves : ∀ i, entry.moves i = (id == i) := by
    intro i
    rcases hentry with ⟨rfl, -⟩ | ⟨rfl, -⟩ <;> rfl
  have hother : entry.subscription? = none ∧ entry.fire? = none ∧
      (∀ number owner, entry ≠ .entrusted number owner) ∧
        ∀ number i, entry ≠ .released number i := by
    rcases hentry with ⟨rfl, -⟩ | ⟨rfl, -⟩ <;> exact ⟨rfl, rfl, nofun, nofun⟩
  obtain ⟨hsub, hfire, hentrusted, hreleased⟩ := hother
  refine ⟨?_, ?_, ?_, ?_, ?_, ?_, ?_, ?_⟩
  · rw [hemitter, hsub, Option.toList_none, List.append_nil]
    refine List.filter_congr fun r _ => ?_
    rw [hback]
    exact congrArg (!·) BEq.comm
  · simp [hemitter, remove, hsub]
  · simp [hsub]
  · rw [hhandles, hemitter]
    calc (w.hub.handles.filter (·.number != id)).map (·.number)
        = (w.hub.handles.map (·.number)).filter (· != id) := by rw [List.filter_map]; rfl
      _ = (w.hub.emitter.listeners.map Prod.fst).filter (· != id) := by rw [h.handles]
      _ = (w.hub.emitter.remove id).listeners.map Prod.fst := by rw [List.filter_map]; rfl
  · intro number owner
    rw [hhandles, List.mem_filter, or_iff_right (hentrusted number owner), hmoves]
    simp [eq_comm (a := id)]
  · intro number i
    simp [hcopies, hfire, hreleased]
  · intro i hi
    rw [hback] at hi
    obtain rfl := beq_iff_eq.1 hi
    rcases hentry with ⟨rfl, -, hblocks⟩ | ⟨rfl, -, hblocks⟩
    · exact iff_of_true rfl hblocks
    · exact iff_of_false nofun hblocks
  · rcases hentry with ⟨rfl, hstuck, -⟩ | ⟨rfl, hstuck, -⟩
    · exact iff_of_true hstuck ⟨id, rfl⟩
    · simp [hstuck]

theorem Sound.unsubscribe (h : w.Sound) (id : UInt64) : (w.unsubscribe id).Sound := by
  refine h.advance fun hopen => ?_
  have hhub : w.hub.unsubscribe id = { w.hub with
      emitter := w.hub.emitter.remove id
      handles := w.hub.handles.filter (·.number != id)
      stuck := w.hub.isRegistered id && !w.hub.isCopied id &&
        (w.hub.handles.filter (·.number != id)).any (·.owner == some id) } :=
    if_neg (by simp [hopen])
  have hstuck : (w.hub.unsubscribe id).stuck = true ↔ Blocks w.history id := by
    rw [hhub]
    exact h.blocks_iff id
  refine h.accords_of_takesBack (by rw [hhub]) (by rw [hhub]) (by rw [hhub]) ?_
  by_cases hblocks : Blocks w.history id
  · exact .inl ⟨if_pos (hstuck.2 hblocks), hstuck.2 hblocks, hblocks⟩
  · have hfree := mt hstuck.1 hblocks
    exact .inr ⟨if_neg hfree, by simpa using hfree, hblocks⟩

theorem Sound.release (h : w.Sound) (number : Nat) (id : UInt64) : (w.release number id).Sound :=
  List.foldlRecOn _ _ (h.letGo number id) fun _ hu i _ => hu.unsubscribe i

/-- **The registered listeners are the subscriptions that stand**, whatever is done: by induction on
the conduct, and on the called listeners where it fires. -/
theorem Sound.exec (c : Conduct σ α ε) (h : w.Sound) : (c.exec w).Sound := by
  induction c generalizing w with
  | done => exact h
  | panic => exact h.note rfl (fun _ => rfl) rfl nofun
  | consult change rest ih =>
      rw [Conduct.exec]
      split
      · exact h
      · exact ih _ ⟨h.listeners, h.next, h.numbers, h.registered, h.handles, h.owners,
          h.copies, h.blocks, h.stuck, h.final⟩
  | subscribe a rest ih => exact ih _ (h.subscribe a)
  | entrust number owner rest ih => exact ih (h.entrust number owner)
  | unsubscribe id rest ih => exact ih (h.unsubscribe id)
  | fire e body rest ihbody ihrest =>
      refine ihrest (Sound.note ?_ rfl (fun _ => rfl) rfl nofun)
      refine List.foldlRecOn _ _ (h.openFire e) fun u hu r _ => ?_
      have hcalled : (u.note (.called w.hub.fires r e)).Sound :=
        hu.note rfl (fun _ => rfl) rfl nofun
      exact (ihbody r hcalled).release _ _

end World

end Registrations

end EnvDiscovery.Emitter
