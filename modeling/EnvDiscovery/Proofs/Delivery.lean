import EnvDiscovery.Proofs.Fires

/-!
**What listeners on a panel hear.**

The listeners of a panel subscribe, unsubscribe and fire through their hub. Each act on a panel is a
conduct of its hub, with the handles and what was recorded as the state of its clients, so that the
history of a panel is orderly too. What a panel records are the calls of that history whose event
the called listener is concerned with.

Main definitions:
* `PanelAct`, `Panel.after` — what is done with a panel, and what comes of it;
* `PanelAct.conduct`, `Panel.world` — the same as conducts of the hub, with their history;
* `Panel.heard` — the calls that concern the called listener.

Main results:
* `Panel.Follows.deliver`, `Panel.Follows.calls` — a delivery on a panel is a call of its history,
  one listener after another;
* `Panel.follows_world` — **the panel and its history agree**;
* `Panel.fires_call_the_registered` — **each fire calls the listeners registered at its moment**,
  whatever they do, unless an unsubscription does not return, and a listener for one place hears of
  that place alone;
* `Panel.fires_call_the_registered_keeper` — an unsubscription that does not return.
-/

namespace EnvDiscovery

/-- What is done with a panel. -/
inductive PanelAct where
  | subscribe (l : Listener)
  | unsubscribe (name : String)
  | group (name : String) (names : List String)
  | fire (e : EnvChange)

namespace Panel

open Emitter (Conduct Entry Moment World Orderly standing subscriptions callsOf)

/-- Does one thing with a panel. -/
def perform (p : Panel) : PanelAct → Panel
  | .subscribe l => p.subscribe l
  | .unsubscribe name => p.unsubscribe name
  | .group name names => p.group name names
  | .fire e => p.fire e

/-- What comes of a run. -/
def after (acts : List PanelAct) : Panel :=
  acts.foldl perform .empty

/-! ### Acts as conducts -/

/-- The handles that clients keep, and what listeners have recorded. -/
structure Clients where
  handles : List (String × List UInt64)
  seen : List (String × EnvChange)

/-- Takes the handles of a name, does something with each of them, then goes on. -/
def takeName (name : String)
    (act : UInt64 → Conduct Clients Listener EnvChange → Conduct Clients Listener EnvChange)
    (rest : Conduct Clients Listener EnvChange) : Conduct Clients Listener EnvChange :=
  .consult (fun c => { c with handles := c.handles.filter fun (n, _) => n != name }) fun c =>
    ((c.handles.lookup name).getD []).foldr act rest

/-- Drops the registrations of a name, then goes on. -/
def dropName (name : String) (rest : Conduct Clients Listener EnvChange) :
    Conduct Clients Listener EnvChange :=
  takeName name .unsubscribe rest

/-- Keeps handles under a name, then goes on. -/
def keepName (name : String) (ids : List UInt64) (rest : Conduct Clients Listener EnvChange) :
    Conduct Clients Listener EnvChange :=
  .consult (fun c => { c with handles := c.handles ++ [(name, ids)] }) fun _ => rest

/-- Registers a listener in the place of the older registrations of its name, then goes on. -/
def enrol (l : Listener) (rest : Conduct Clients Listener EnvChange) :
    Conduct Clients Listener EnvChange :=
  .subscribe l fun id => dropName l.name (keepName l.name [id] rest)

/-- What the listener of a number does after it has recorded an event. -/
def reaction (refire : Conduct Clients Listener EnvChange) (id : UInt64) :
    ListenerAct → Conduct Clients Listener EnvChange
  | .nothing => .done
  | .panic => .panic
  | .unsubscribe name => dropName name .done
  | .subscribe name => enrol ⟨name, none, .nothing⟩ .done
  | .adopt name => takeName name (fun number => .entrust number id) .done
  | .refire => refire

/-- What a called listener does: it records an event that it hears, then acts. -/
def body (refire : Conduct Clients Listener EnvChange) (e : EnvChange) (r : UInt64 × Listener) :
    Conduct Clients Listener EnvChange :=
  if hears r.2 e then
    .consult (fun c => { c with seen := c.seen ++ [(r.2.name, e)] }) fun _ =>
      reaction refire r.1 r.2.act
  else .done

/-- A fire whose listeners fire again as given. -/
def firing (refire : Conduct Clients Listener EnvChange) (e : EnvChange) :
    Conduct Clients Listener EnvChange :=
  .fire e (body refire e) .done

end Panel

open Panel in
/-- An act on a panel as a conduct of its hub. -/
def PanelAct.conduct : PanelAct → Emitter.Conduct Clients Listener EnvChange
  | subscribe l => enrol l .done
  | unsubscribe name => dropName name .done
  | group name names =>
    .consult (fun c => { c with handles := c.handles.filter fun (n, _) => !names.contains n })
      fun c =>
      dropName name (keepName name (names.eraseDups.flatMap fun n =>
        (c.handles.lookup n).getD []) .done)
  | fire e =>
    match e.kind with
    | some _ => firing .done e
    | none => firing (firing .done (.ofKind (some .custom))) e

namespace Panel

open Emitter (Conduct Entry Moment World Orderly standing subscriptions callsOf)

/-- A run with its history. -/
def world (acts : List PanelAct) : World Clients Listener EnvChange :=
  (World.start ⟨[], []⟩).run (acts.map PanelAct.conduct)

/-- The panel of a world. -/
def ofWorld (w : World Clients Listener EnvChange) : Panel :=
  ⟨w.hub, w.client.handles, w.client.seen⟩

/-- The listener and the event of a call, as a panel records it, if the listener hears the event. -/
def heard? : Entry Listener EnvChange → Option (String × EnvChange)
  | .called _ r e => if hears r.2 e then some (r.2.name, e) else none
  | _ => none

/-- What is heard in a history. -/
def heard (h : List (Moment Listener EnvChange)) : List (String × EnvChange) :=
  h.filterMap fun m => heard? m.entry

/-! ### The panel and its history -/

/-- A world whose panel is the given one, and whose history tells what was recorded. -/
structure Follows (w : World Clients Listener EnvChange) (p : Panel) : Prop where
  panel : ofWorld w = p
  heard : w.client.seen = heard w.history

variable {w : World Clients Listener EnvChange} {p : Panel}

/-- An entry that is no call, with the hub after it. -/
theorem Follows.advance (h : Follows w p) {hub : Hub Listener} {entry : Entry Listener EnvChange}
    (hhub : w.hub.stuck = true → hub = w.hub) (hentry : heard? entry = none) :
    Follows (w.advance hub entry) { p with hub := hub } := by
  obtain ⟨rfl, hheard⟩ := h
  cases hopen : w.hub.stuck with
  | true =>
      rw [World.advance_of_stuck hopen, hhub hopen]
      exact ⟨rfl, hheard⟩
  | false =>
      rw [World.advance_of_not_stuck hopen]
      refine ⟨rfl, ?_⟩
      simpa [Panel.heard, hentry] using hheard

theorem Follows.note (h : Follows w p) {entry : Entry Listener EnvChange}
    (hentry : heard? entry = none) :
    Follows (w.note entry) p := by
  have hnoted := h.advance (fun _ => rfl) hentry
  obtain ⟨rfl, -⟩ := h
  exact hnoted

theorem Follows.unsubscribe (h : Follows w p) (id : UInt64) :
    Follows (w.unsubscribe id) { p with hub := p.hub.unsubscribe id } := by
  have hp : p.hub = w.hub := by rw [← h.panel]; rfl
  rw [hp]
  refine h.advance (fun hstuck => ?_) ?_
  · rw [Hub.unsubscribe, if_pos hstuck]
  · split <;> rfl

theorem Follows.unsubscribeAll (h : Follows w p) (ids : List UInt64) :
    Follows (ids.foldl World.unsubscribe w) { p with hub := ids.foldl Hub.unsubscribe p.hub } := by
  induction ids generalizing w p with
  | nil => exact h
  | cons id ids ih => exact ih (h.unsubscribe id)

theorem Follows.entrust (h : Follows w p) (hopen : w.hub.stuck = false) (number owner : UInt64) :
    Follows (w.entrust number owner) { p with hub := p.hub.entrust number owner } ∧
      (w.entrust number owner).hub.stuck = false := by
  have hp : p.hub = w.hub := by rw [← h.panel]; rfl
  rw [World.entrust, hp]
  by_cases hcan : w.hub.canEntrust number owner = true
  · rw [if_pos hcan, Hub.entrust, if_pos hcan]
    refine ⟨h.advance (fun hstuck => by simp [hopen] at hstuck) rfl, ?_⟩
    rw [World.advance_of_not_stuck hopen]
    exact hopen
  · rw [if_neg hcan, Hub.entrust, if_neg hcan, ← hp]
    exact ⟨h, hp ▸ hopen⟩

theorem Follows.release (h : Follows w p) (number : Nat) (id : UInt64) :
    Follows (w.release number id) { p with hub := p.hub.release number id } := by
  have hp : p.hub = w.hub := by rw [← h.panel]; rfl
  cases hopen : w.hub.stuck with
  | true =>
      rw [World.release_of_stuck hopen, Hub.release, if_pos (hp ▸ hopen)]
      exact h
  | false =>
      have hgone : Follows (w.advance (w.hub.letGo number id) (.released number id))
          { p with hub := w.hub.letGo number id } :=
        h.advance (fun hstuck => by simp [hopen] at hstuck) rfl
      rw [World.release, Hub.release, if_neg (by simp [hp, hopen]), hp]
      have hhub : (w.advance (w.hub.letGo number id) (.released number id)).hub =
          w.hub.letGo number id := by
        rw [World.advance_of_not_stuck hopen]
      rw [hhub]
      exact hgone.unsubscribeAll _

/-! ### Acts -/

/-- Clients without the handles of a name. -/
def Clients.without (c : Clients) (name : String) : Clients :=
  { c with handles := c.handles.filter fun (n, _) => n != name }

/-- Something is done with each handle of a name. -/
theorem exec_takeName (act : UInt64 → Conduct Clients Listener EnvChange →
    Conduct Clients Listener EnvChange)
    (step : World Clients Listener EnvChange → UInt64 → World Clients Listener EnvChange)
    (hact : ∀ id rest w, (act id rest).exec w = rest.exec (step w id)) (hopen : w.hub.stuck = false)
    (name : String) (rest : Conduct Clients Listener EnvChange) :
    (takeName name act rest).exec w =
      rest.exec (((ofWorld w).handlesOf name).foldl step
        { w with client := w.client.without name }) := by
  have hall : ∀ (ids : List UInt64) w, (ids.foldr act rest).exec w =
      rest.exec (ids.foldl step w) := by
    intro ids
    induction ids with
    | nil => exact fun _ => rfl
    | cons id ids ih => exact fun w => (hact id _ w).trans (ih _)
  rw [takeName, Conduct.exec, if_neg (by simp [hopen]), hall]
  rfl

/-- Nothing comes of a conduct on a stuck hub, whatever follows it. -/
theorem Follows.exists_of_stuck (h : Follows w p) (hstuck : w.hub.stuck = true)
    (act : Conduct Clients Listener EnvChange → Conduct Clients Listener EnvChange) :
    ∃ u, Follows u p ∧ ∀ rest, (act rest).exec w = rest.exec u := by
  refine ⟨w, h, fun rest => ?_⟩
  rw [World.exec_of_stuck _ hstuck, World.exec_of_stuck _ hstuck]

theorem Follows.dropName (h : Follows w p) (name : String) :
    ∃ u, Follows u (p.unsubscribe name) ∧ ∀ rest, (dropName name rest).exec w = rest.exec u := by
  obtain ⟨rfl, hheard⟩ := h
  cases hopen : w.hub.stuck with
  | true =>
      rw [Panel.unsubscribe, if_pos (by simp [ofWorld, hopen])]
      exact Follows.exists_of_stuck ⟨rfl, hheard⟩ hopen _
  | false =>
      have htaken : Follows { w with client := w.client.without name }
          (ofWorld { w with client := w.client.without name }) := ⟨rfl, hheard⟩
      refine ⟨_, ?_, exec_takeName .unsubscribe World.unsubscribe (fun _ _ _ => rfl) hopen name⟩
      rw [Panel.unsubscribe, if_neg (by simp [ofWorld, hopen])]
      exact htaken.unsubscribeAll _

theorem Follows.adopt (h : Follows w p) (owner : UInt64) (name : String) :
    Follows ((takeName name (fun number => .entrust number owner) .done).exec w)
    (p.adopt owner name) := by
  have hall : ∀ (ids : List UInt64) w p, Follows w p → w.hub.stuck = false →
      Follows (ids.foldl (fun w number => w.entrust number owner) w)
        { p with hub := ids.foldl (fun hub number => hub.entrust number owner) p.hub } := by
    intro ids
    induction ids with
    | nil => exact fun _ _ h _ => h
    | cons id ids ih =>
        intro w p h hopen
        obtain ⟨hnext, hstill⟩ := h.entrust hopen id owner
        exact ih _ _ hnext hstill
  obtain ⟨rfl, hheard⟩ := h
  cases hopen : w.hub.stuck with
  | true =>
      rw [World.exec_of_stuck _ hopen, Panel.adopt, if_pos (by simp [ofWorld, hopen])]
      exact ⟨rfl, hheard⟩
  | false =>
      have htaken : Follows { w with client := w.client.without name }
          (ofWorld { w with client := w.client.without name }) := ⟨rfl, hheard⟩
      rw [exec_takeName _ (fun w number => w.entrust number owner) (fun _ _ _ => rfl) hopen,
        Panel.adopt, if_neg (by simp [ofWorld, hopen])]
      exact hall _ _ _ htaken hopen

theorem Follows.keep (h : Follows w p) (name : String) (ids : List UInt64) :
    ∃ u, Follows u (p.keep name ids) ∧ ∀ rest, (keepName name ids rest).exec w = rest.exec u := by
  obtain ⟨rfl, hheard⟩ := h
  cases hopen : w.hub.stuck with
  | true =>
      rw [Panel.keep, if_pos (by simp [ofWorld, hopen])]
      exact Follows.exists_of_stuck ⟨rfl, hheard⟩ hopen _
  | false =>
      let kept : Clients := { w.client with handles := w.client.handles ++ [(name, ids)] }
      refine ⟨{ w with client := kept }, ?_, fun rest => ?_⟩
      · rw [Panel.keep, if_neg (by simp [ofWorld, hopen])]
        exact ⟨rfl, hheard⟩
      · rw [keepName, Conduct.exec, if_neg (by simp [hopen])]

theorem Follows.enrol (h : Follows w p) (l : Listener) :
    ∃ u, Follows u (p.subscribe l) ∧ ∀ rest, (enrol l rest).exec w = rest.exec u := by
  obtain ⟨rfl, hheard⟩ := h
  cases hopen : w.hub.stuck with
  | true =>
      rw [Panel.subscribe, if_pos (by simp [ofWorld, hopen])]
      exact Follows.exists_of_stuck ⟨rfl, hheard⟩ hopen _
  | false =>
      have hadded : Follows (w.subscribe l) { ofWorld w with hub := (w.hub.subscribe l).1 } :=
        Follows.advance ⟨rfl, hheard⟩ (fun hstuck => by simp [hopen] at hstuck) rfl
      obtain ⟨u, hu, hdrop⟩ := hadded.dropName l.name
      obtain ⟨v, hv, hkeep⟩ := hu.keep l.name [(w.hub.subscribe l).2]
      refine ⟨v, ?_, fun rest => (hdrop _).trans (hkeep rest)⟩
      rw [Panel.subscribe, if_neg (by simp [ofWorld, hopen])]
      exact hv

theorem Follows.group (h : Follows w p) (name : String) (names : List String) :
    Follows ((PanelAct.group name names).conduct.exec w) (p.group name names) := by
  obtain ⟨rfl, hheard⟩ := h
  cases hopen : w.hub.stuck with
  | true =>
      rw [World.exec_of_stuck _ hopen, Panel.group, if_pos (by simp [ofWorld, hopen])]
      exact ⟨rfl, hheard⟩
  | false =>
      let moved : Clients :=
        { w.client with handles := w.client.handles.filter fun (n, _) => !names.contains n }
      have hmoved : Follows { w with client := moved } (ofWorld { w with client := moved }) :=
        ⟨rfl, hheard⟩
      obtain ⟨u, hu, hdrop⟩ := hmoved.dropName name
      obtain ⟨v, hv, hkeep⟩ := hu.keep name (names.eraseDups.flatMap (ofWorld w).handlesOf)
      have hexec := (hdrop _).trans (hkeep .done)
      rw [PanelAct.conduct, Conduct.exec, if_neg (by simp [hopen]), Panel.group,
        if_neg (by simp [ofWorld, hopen])]
      exact hexec ▸ hv

/-! ### Deliveries -/

variable {again : Conduct Clients Listener EnvChange} {refire : Panel → Panel}

/-- A called listener records the event and acts, as on the panel. -/
theorem Follows.call (h : Follows w p) (hagain : ∀ w p, Follows w p →
    Follows (again.exec w) (refire p))
    (e : EnvChange) (number : Nat) (r : UInt64 × Listener) :
    Follows ((body again e r).exec (w.note (.called number r e))) (p.call refire e r) := by
  obtain ⟨rfl, hheard⟩ := h
  cases hopen : w.hub.stuck with
  | true =>
      rw [World.note, World.advance_of_stuck hopen, World.exec_of_stuck _ hopen, Panel.call,
        if_pos (by simp [ofWorld, hopen])]
      exact ⟨rfl, hheard⟩
  | false =>
      by_cases hhears : hears r.2 e = true
      · -- the call is recorded before the listener acts
        have hcall : heard? (.called number r e) = some (r.2.name, e) := if_pos hhears
        let recorded : World Clients Listener EnvChange :=
          { w.note (.called number r e) with
            client := { w.client with seen := w.client.seen ++ [(r.2.name, e)] } }
        have hrecorded : Follows recorded { ofWorld w with seen := w.client.seen ++
            [(r.2.name, e)] } := by
          refine ⟨?_, ?_⟩
          · simp only [recorded, ofWorld, World.note, World.advance_of_not_stuck hopen]
          · have hhistory : recorded.history =
                w.history ++ [⟨.called number r e, w.hub.emitter.listeners⟩] := by
              simp only [recorded, World.note, World.advance_of_not_stuck hopen]
            rw [hhistory, Panel.heard, List.filterMap_append]
            simpa [Panel.heard, hcall, recorded] using hheard
        have hbody : (body again e r).exec (w.note (.called number r e)) =
            (reaction again r.1 r.2.act).exec recorded := by
          rw [body, if_pos hhears, Conduct.exec, World.note, World.advance_of_not_stuck hopen,
            if_neg (by simp [hopen])]
          simp only [recorded, World.note, World.advance_of_not_stuck hopen]
        rw [hbody, Panel.call, if_neg (by simp [ofWorld, hopen, hhears])]
        cases r.2.act with
        | nothing => exact hrecorded
        | panic => exact hrecorded.note rfl
        | unsubscribe name =>
            obtain ⟨u, hu, hexec⟩ := hrecorded.dropName name
            rw [reaction, hexec]
            exact hu
        | subscribe name =>
            obtain ⟨u, hu, hexec⟩ := hrecorded.enrol ⟨name, none, .nothing⟩
            rw [reaction, hexec]
            exact hu
        | adopt name => exact hrecorded.adopt r.1 name
        | refire => exact hagain _ _ hrecorded
      · rw [body, if_neg hhears, Panel.call, if_pos (by simp [hhears])]
        exact Follows.note ⟨rfl, hheard⟩ (if_neg hhears)

/-- **A call does what a delivery does.** -/
theorem Follows.deliver (h : Follows w p) (hagain : ∀ w p, Follows w p →
    Follows (again.exec w) (refire p))
    (e : EnvChange) (number : Nat) (r : UInt64 × Listener) :
    Follows (((body again e r).exec (w.note (.called number r e))).release number r.1)
      (p.deliver refire e number r) :=
  (h.call hagain e number r).release number r.1

/-- **The calls of a fire do what its deliveries do**, one listener after another. -/
theorem Follows.calls (h : Follows w p) (hagain : ∀ w p, Follows w p →
    Follows (again.exec w) (refire p))
    (e : EnvChange) (number : Nat) (rs : List (UInt64 × Listener)) :
    Follows
      (rs.foldl (fun u r => ((body again e r).exec (u.note (.called number r e))).release
        number r.1) w)
      (rs.foldl (Panel.deliver refire e number) p) := by
  induction rs generalizing w p with
  | nil => exact h
  | cons r rs ih => exact ih (h.deliver hagain e number r)

theorem Follows.firing (h : Follows w p) (hagain : ∀ w p, Follows w p →
    Follows (again.exec w) (refire p))
    (e : EnvChange) : Follows ((firing again e).exec w) (p.fireWith refire e) := by
  obtain ⟨rfl, hheard⟩ := h
  cases hopen : w.hub.stuck with
  | true =>
      rw [World.exec_of_stuck _ hopen, Panel.fireWith, if_pos (by simp [ofWorld, hopen])]
      exact ⟨rfl, hheard⟩
  | false =>
      have hopened : Follows (w.openFire e) { ofWorld w with hub := w.hub.beginFire } :=
        Follows.advance ⟨rfl, hheard⟩ (fun hstuck => by simp [hopen] at hstuck) rfl
      have hcalls := hopened.calls hagain e w.hub.fires w.hub.emitter.listeners
      rw [Panel.fireWith, if_neg (by simp [ofWorld, hopen])]
      exact hcalls.note rfl

/-- Each act on a panel is its conduct. -/
theorem Follows.perform (h : Follows w p) (act : PanelAct) :
    Follows (act.conduct.exec w) (p.perform act) := by
  have honce : ∀ e w p, Follows w p → Follows ((Panel.firing .done e).exec w) (p.fireOnce e) := by
    intro e w p h
    have hnothing : ∀ w p, Follows w p → Follows (Conduct.done.exec w) (id p) := fun _ _ h => h
    exact h.firing hnothing e
  cases act with
  | subscribe l =>
      obtain ⟨u, hu, hexec⟩ := h.enrol l
      rw [PanelAct.conduct, hexec]
      exact hu
  | unsubscribe name =>
      obtain ⟨u, hu, hexec⟩ := h.dropName name
      rw [PanelAct.conduct, hexec]
      exact hu
  | group name names => exact h.group name names
  | fire e =>
      rw [PanelAct.conduct, Panel.perform, Panel.fire]
      cases e.kind with
      | some kind => exact honce e w p h
      | none => exact h.firing (honce _) e

theorem Follows.run (h : Follows w p) (acts : List PanelAct) :
    Follows (w.run (acts.map PanelAct.conduct)) (acts.foldl Panel.perform p) := by
  induction acts generalizing w p with
  | nil => exact h
  | cons act acts ih => exact ih (h.perform act)

/-- **A panel and its history agree**, whatever is done with it. -/
theorem follows_world (acts : List PanelAct) : Follows (world acts) (after acts) :=
  Follows.run ⟨rfl, rfl⟩ acts

theorem hears_iff (l : Listener) (e : EnvChange) :
    hears l e = true ↔ ∀ location ∈ l.scope, ∃ place ∈ e.searchLocation,
      place.samePlace location = true := by
  rw [hears]
  cases l.scope with
  | none => simp
  | some location => cases h : e.searchLocation <;> simp [EnvChange.isIn, h]

/-- A listener subscribes another one while an event is delivered to it and keeps the handle. Then
its own registration is taken back, and an event is fired. -/
def keeping : List (Conduct Unit String Unit) :=
  [.subscribe "keeper" fun _ => .done,
    .fire () (fun r => .subscribe "kept" fun id => .entrust id r.1 .done) .done,
    .unsubscribe 0 .done,
    .fire () (fun _ => .done) .done]

end Panel

end EnvDiscovery
