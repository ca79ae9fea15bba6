import EnvDiscovery.Proofs.WorkspaceRuns
import Mathlib.Data.List.Nodup

/-!
**What the clients of a workspace hear.**

A client hears of the roots that come and go, and of the changes that the sources of the roots
report, from the moment it subscribes until it unsubscribes. It hears each of these once, and
nothing else.

Main definitions:
* `Session.announced` — what an act gives to hear;
* `Session.due` — what a client is to hear in a run;
* `Session.heardBy` — what a client has heard;
* `Session.Sound` — who listens to whom, in every session that a run reaches.

Main results:
* `Session.Sound.step` — every step keeps the listeners in order;
* `Session.heardBy_step` — **what a step adds to what a client has heard**;
* `Session.clients_hear_what_is_due` — **clients hear what is due to them**, and nothing of roots
  that are gone.
-/

namespace EnvDiscovery

/-! ### What there is to hear -/

/-- The change that a client hears of. -/
def News.toClient (client : String) : News → Option EnvChange
  | change name e => if name = client then some e else none
  | refresh _ => none

/-- Whether a client listens after an act. -/
def WorkspaceAct.hears (client : String) (before : Bool) : WorkspaceAct → Bool
  | subscribe name => before || name == client
  | unsubscribe name => before && name != client
  | _ => before

namespace Session

/-- The changes that a client has heard of. -/
def heardBy (s : Session) (client : String) : List EnvChange :=
  s.news.filterMap (News.toClient client)

/-- Whether a client listens to the workspace. -/
def hears (s : Session) (client : String) : Bool :=
  s.clients.any (·.1 == client)

/-- The root whose source at a position reports changes, if the root of the number is registered. -/
def reporting (s : Session) (number position : Nat) : Option Path :=
  (s.workspace.root? number).bind fun r =>
    (r.sources[position]?.filter (·.watched.locator.reportsChanges)).map fun _ => r.root

/-- What an act that leads to a session gives to hear: a folder that changes the roots, and what a
source of a registered root reports, with the root as the place if the report names none. -/
def announced (s : Session) (a : WorkspaceAct) (s' : Session) : List EnvChange :=
  match a with
  | .openFolder root | .closeFolder root =>
    if s'.workspace.paths = s.workspace.paths then [] else [.ofLocation root]
  | .report number position e =>
    (s.reporting number position).toList.map fun root =>
      { e with searchLocation := some (e.searchLocation.getD root) }
  | .subscribe _ | .unsubscribe _ | .dispose => []

/-- What a client is to hear in a run: what is announced while it listens. -/
def due (client : String) : Bool → Session → List WorkspaceAct → List EnvChange
  | _, _, [] => []
  | listens, s, a :: as =>
    (if listens then s.announced a (s.act a) else []) ++
      due client (a.hears client listens) (s.act a) as

end Session

/-! ### The register of clients -/

/-- The listeners of the workspace are the clients, each once and under its number. -/
structure Enrolled (e : Emitter Hearer) (clients : List (String × Registration)) : Prop where
  listeners : e.listeners = clients.map fun c => (c.2.number, .client c.1)
  posts : ∀ c ∈ clients, c.2.post = .workspace
  names : (clients.map (·.1)).Nodup
  numbers : (clients.map (·.2.number)).Nodup
  below : ∀ c ∈ clients, c.2.number < e.next

/-- The listeners without the registration of a client. -/
def Emitter.without (e : Emitter Hearer) (clients : List (String × Registration))
    (client : String) : Emitter Hearer :=
  (clients.lookup client).elim e fun r => e.remove r.number

namespace Enrolled

variable {e : Emitter Hearer} {clients : List (String × Registration)} {client : String}

theorem empty : Enrolled .empty [] :=
  ⟨rfl, nofun, List.nodup_nil, List.nodup_nil, nofun⟩

theorem current (h : Enrolled e clients) : e.current = clients.map fun c => .client c.1 := by
  rw [Emitter.current, h.listeners, List.map_map]
  rfl

theorem mem_of_lookup {r : Registration} (h : clients.lookup client = some r) :
    (client, r) ∈ clients := by
  obtain ⟨before, after, rfl, -⟩ := List.lookup_eq_some_iff.1 h
  simp

/-- The registration that is looked up under a name is the one of its number. -/
theorem number_eq_iff (h : Enrolled e clients) {r : Registration}
    (hr : clients.lookup client = some r) {c : String × Registration} (hc : c ∈ clients) :
    c.2.number = r.number ↔ c.1 = client := by
  have hmem := mem_of_lookup hr
  constructor
  · intro hnumber
    have heq : c = (client, r) := List.inj_on_of_nodup_map h.numbers hc hmem hnumber
    rw [heq]
  · intro hname
    have heq : c = (client, r) := List.inj_on_of_nodup_map h.names hc hmem hname
    rw [heq]

/-- Without a registration, the listeners are those of the other clients. -/
theorem listeners_without (h : Enrolled e clients) (client : String) :
    (e.without clients client).listeners =
      (clients.filter (·.1 != client)).map fun c => (c.2.number, .client c.1) := by
  rw [Emitter.without]
  cases hlookup : clients.lookup client with
  | none => rw [Session.filter_clients_of_lookup_none hlookup, Option.elim_none, h.listeners]
  | some r =>
      rw [Option.elim_some, Emitter.remove, h.listeners, List.filter_map]
      refine congrArg (List.map _) (List.filter_congr fun c hc => ?_)
      rw [Bool.eq_iff_iff]
      simpa using not_congr (h.number_eq_iff hlookup hc)

theorem next_without (e : Emitter Hearer) (clients : List (String × Registration))
    (client : String) :
    (e.without clients client).next = e.next := by
  rw [Emitter.without]
  cases clients.lookup client with
  | none => rfl
  | some r => rfl

/-- A client that goes takes its listener along. -/
theorem without (h : Enrolled e clients) (client : String) :
    Enrolled (e.without clients client) (clients.filter (·.1 != client)) where
  listeners := h.listeners_without client
  posts c hc := h.posts c (List.mem_filter.1 hc).1
  names := h.names.sublist (List.filter_sublist.map _)
  numbers := h.numbers.sublist (List.filter_sublist.map _)
  below c hc := by
    rw [next_without]
    exact h.below c (List.mem_filter.1 hc).1

/-- A listener that comes before another goes is there after it. -/
theorem add_without (h : Enrolled e clients) (client : String) (a : Hearer) :
    (e.add a).1.without clients client = ((e.without clients client).add a).1 := by
  rw [Emitter.without, Emitter.without]
  cases hlookup : clients.lookup client with
  | none => rfl
  | some r =>
      have hne : (e.next != r.number) = true := by
        simpa using (Nat.ne_of_lt (h.below _ (mem_of_lookup hlookup))).symm
      simp [Emitter.add, Emitter.remove, List.filter_append, hne]

/-- A new client comes last. -/
theorem add (h : Enrolled e clients) (hnew : client ∉ clients.map (·.1)) :
    Enrolled (e.add (.client client)).1 (clients ++ [(client, ⟨.workspace, e.next⟩)]) where
  listeners := by
    rw [List.map_append, ← h.listeners]
    rfl
  posts c hc := by
    rcases List.mem_append.1 hc with hc | hc
    · exact h.posts c hc
    · rw [List.mem_singleton.1 hc]
  names := by
    simpa only [List.map_append, List.map_cons, List.map_nil,
      List.concat_eq_append] using h.names.concat hnew
  numbers := by
    have hfresh : e.next ∉ clients.map (·.2.number) := by
      intro hmem
      obtain ⟨c, hc, hnumber⟩ := List.mem_map.1 hmem
      exact absurd hnumber (Nat.ne_of_lt (h.below c hc))
    simpa only [List.map_append, List.map_cons, List.map_nil,
      List.concat_eq_append] using h.numbers.concat hfresh
  below c hc := by
    change c.2.number < e.next + 1
    rcases List.mem_append.1 hc with hc | hc
    · exact Nat.lt_succ_of_lt (h.below c hc)
    · rw [List.mem_singleton.1 hc]
      exact Nat.lt_succ_self e.next

end Enrolled

/-! ### Who listens to whom -/

namespace Workspace

/-- Who listens to the roots: to a registered root the workspace alone, once it has had a client,
and to a root that is gone at most the workspace, under the number of that root. Every number below
the next one is that of one root, registered or gone. -/
structure Sound (ws : Workspace) : Prop where
  heard : ∀ r ∈ ws.roots, r.Heard ws.forwarding
  secluded : ∀ r ∈ ws.gone, r.Secluded
  numbers : ((ws.roots ++ ws.gone).map (·.number)).Perm (List.range ws.next)

namespace Sound

variable {ws : Workspace}

theorem empty (factories : List RootFactory) : (Workspace.empty factories).Sound :=
  ⟨nofun, nofun, .nil⟩

theorem addRoot (h : ws.Sound) {r : WorkspaceRoot} (hnumber : r.number = ws.next)
    (hheard : r.Heard ws.forwarding) :
    Sound { ws with roots := ws.roots ++ [r], next := ws.next + 1 } where
  heard r' hr' := by
    rcases List.mem_append.1 hr' with hr' | hr'
    · exact h.heard r' hr'
    · rw [List.mem_singleton.1 hr']
      exact hheard
  secluded := h.secluded
  numbers := by
    change ((ws.roots ++ [r] ++ ws.gone).map (·.number)).Perm (List.range (ws.next + 1))
    rw [List.range_succ, List.append_assoc, List.singleton_append, List.map_append,
      List.map_cons, hnumber]
    refine List.perm_middle.trans (List.Perm.trans ?_ List.perm_append_comm)
    rw [← List.map_append]
    exact h.numbers.cons ws.next

/-- Some roots go and the others stay. -/
theorem retire (h : ws.Sound) {go stay retired : List WorkspaceRoot}
    (hparts : (go ++ stay).Perm ws.roots) (hretired : WorkspaceRoot.Retired go retired)
    (attached : Bool) :
    Sound { ws with roots := stay, gone := ws.gone ++ retired, attached := attached } where
  heard r hr := h.heard r (hparts.subset (List.mem_append_right _ hr))
  secluded r hr := by
    rcases List.mem_append.1 hr with hr | hr
    · exact h.secluded r hr
    · refine hretired.secluded (fun r hr => ?_) r hr
      exact (h.heard r (hparts.subset (List.mem_append_left _ hr))).secluded
  numbers := by
    refine List.Perm.trans ?_ h.numbers
    change ((stay ++ (ws.gone ++ retired)).map (·.number)).Perm
      ((ws.roots ++ ws.gone).map (·.number))
    have hbefore := (hparts.map (·.number)).append_right (ws.gone.map (·.number))
    simp only [List.map_append, hretired.numbers] at hbefore ⊢
    refine (List.perm_append_comm.trans ?_).trans hbefore
    rw [List.append_assoc]
    exact List.perm_append_comm

/-- The same roots, with other listeners. -/
theorem relisten (h : ws.Sound) {roots : List WorkspaceRoot} {forwarding : Bool}
    (hnumbers : roots.map (·.number) = ws.roots.map (·.number))
    (hheard : ∀ r ∈ roots, r.Heard forwarding) (emitter : Emitter Hearer) :
    Sound { ws with roots := roots, emitter := emitter, forwarding := forwarding } where
  heard := hheard
  secluded := h.secluded
  numbers := by
    change ((roots ++ ws.gone).map (·.number)).Perm (List.range ws.next)
    rw [List.map_append, hnumbers, ← List.map_append]
    exact h.numbers

theorem nodup_numbers (h : ws.Sound) : ((ws.roots ++ ws.gone).map (·.number)).Nodup :=
  h.numbers.nodup_iff.2 List.nodup_range

/-- The roots that are gone are those that were numbered and are not registered. -/
theorem mem_gone_iff (h : ws.Sound) (number : Nat) :
    number ∈ ws.gone.map (·.number) ↔ number < ws.next ∧ ws.root? number = none := by
  have hnumbered : number ∈ (ws.roots ++ ws.gone).map (·.number) ↔ number < ws.next := by
    rw [h.numbers.mem_iff, List.mem_range]
  have hnone : ws.root? number = none ↔ number ∉ ws.roots.map (·.number) := by
    simp [root?]
  have hdisjoint : number ∈ ws.roots.map (·.number) → number ∉ ws.gone.map (·.number) := by
    have hnodup := h.nodup_numbers
    rw [List.map_append] at hnodup
    exact fun hroots hgone => List.disjoint_of_nodup_append hnodup hroots hgone
  rw [List.map_append, List.mem_append] at hnumbered
  rw [hnone, ← hnumbered]
  tauto

end Sound

end Workspace

namespace Session

variable {s s' : Session} {a : WorkspaceAct}

/-- Who listens to whom: the workspace to its roots, and the clients to the workspace. -/
structure Sound (s : Session) : Prop where
  workspace : s.workspace.Sound
  enrolled : Enrolled s.workspace.emitter s.clients
  silent : s.workspace.forwarding = false → s.clients = []

theorem withdrawn_of_enrolled (s : Session) {e : Emitter Hearer} (h : Enrolled e s.clients)
    (client : String) :
    s.withdrawn client = { s with
      workspace :=
        { s.workspace with emitter := s.workspace.emitter.without s.clients client } } := by
  rw [withdrawn, Emitter.without]
  cases hlookup : s.clients.lookup client with
  | none => rfl
  | some r =>
      have hpost : r.post = .workspace := h.posts _ (Enrolled.mem_of_lookup hlookup)
      rw [Option.elim_some, withdraw, hpost]
      rfl

/-- Every step keeps the listeners in order. -/
theorem Sound.step (h : s.Sound) (hstep : s.Step a s') : s'.Sound := by
  cases hstep with
  | wasOpen => exact h
  | openedApart => exact ⟨h.workspace, h.enrolled, h.silent⟩
  | opened hclosed hattached hnew hnumber hroot hheard =>
      exact ⟨h.workspace.addRoot hnumber hheard, h.enrolled, h.silent⟩
  | wasClosed => exact h
  | closedApart => exact ⟨h.workspace, h.enrolled, h.silent⟩
  | closed hopen hattached hthere hretired =>
      exact ⟨h.workspace.retire (List.filter_append_perm _ _) hretired _, h.enrolled, h.silent⟩
  | @subscribed client roots w hnumbers hpaths hheard =>
      have hgone : client ∉ (s.clients.filter (·.1 != client)).map (·.1) := by simp
      rw [(s.registered client roots w).withdrawn_of_enrolled h.enrolled client]
      refine ⟨h.workspace.relisten hnumbers (hheard h.workspace.heard) _, ?_, nofun⟩
      change Enrolled ((s.workspace.emitter.add (.client client)).1.without s.clients client)
        (s.clients.filter (·.1 != client) ++ [(client, ⟨.workspace, s.workspace.emitter.next⟩)])
      rw [h.enrolled.add_without, ← Enrolled.next_without s.workspace.emitter s.clients client]
      exact (h.enrolled.without client).add hgone
  | @unsubscribed client =>
      rw [s.withdrawn_of_enrolled h.enrolled client]
      refine ⟨h.workspace.relisten rfl h.workspace.heard _, h.enrolled.without client, ?_⟩
      intro hforwarding
      simp [h.silent hforwarding]
  | reported => exact ⟨h.workspace, h.enrolled, h.silent⟩
  | disposed hretired =>
      have hparts : (s.workspace.roots ++ []).Perm s.workspace.roots := by rw [List.append_nil]
      exact ⟨h.workspace.retire hparts hretired false, h.enrolled, h.silent⟩

theorem sound_newWith (factories : List RootFactory) (machine : Machine)
    (cache : Option Resolution.Cache) (now : Timestamp) (store : Store) (sources : List Locator)
    (watcher : Watcher) (folders : List Path) (joinsWorkspace : Bool) :
    (newWith factories machine cache now store sources watcher folders joinsWorkspace).Sound := by
  have h := Workspace.ofFolders_induction (P := fun _ ws _ => ws.Sound ∧ ws.emitter = .empty)
    factories machine.host (folders.foldl Watcher.addNative watcher) folders ⟨.empty factories, rfl⟩
    (fun _ _ _ _ h _ => h) ?_
  · refine ⟨h.1, ?_, fun _ => rfl⟩
    exact h.2 ▸ Enrolled.empty
  · rintro - ws - - r - ⟨hsound, hemitter⟩ - hnumber - hheard -
    exact ⟨hsound.addRoot hnumber hheard, hemitter⟩

/-! ### What is heard -/

theorem hears_iff {client : String} : s.hears client = true ↔ client ∈ s.clients.map (·.1) := by
  simp [hears]

/-- What reaches the workspace reaches every client. -/
theorem heardWorkspace_eq (h : s.Sound) (e : EnvChange) :
    s.heardWorkspace e = (s.clients.map (·.1)).map (.change · e) := by
  rw [heardWorkspace, h.enrolled.current, List.flatMap_map, List.map_map, List.map_eq_flatMap]
  rfl

theorem filterMap_toClient (client : String) (e : EnvChange) {names : List String}
    (h : names.Nodup) :
    (names.map (.change · e)).filterMap (News.toClient client) = if client ∈ names then [e]
      else [] := by
  induction names with
  | nil => rfl
  | cons name names ih =>
      obtain ⟨hname, hnames⟩ := List.nodup_cons.1 h
      rw [List.map_cons, List.filterMap_cons, ih hnames, News.toClient]
      by_cases heq : name = client
      · subst heq
        simp [hname]
      · simp [heq, Ne.symm heq]

/-- A client hears once what reaches the workspace while it listens. -/
theorem filterMap_heardWorkspace (h : s.Sound) (client : String) (es : List EnvChange) :
    (es.flatMap s.heardWorkspace).filterMap (News.toClient client) = if s.hears client then es
      else [] := by
  have hone : ∀ e, (s.heardWorkspace e).filterMap (News.toClient client) =
      if s.hears client then [e] else [] := by
    intro e
    rw [heardWorkspace_eq h, filterMap_toClient client e h.enrolled.names]
    simp only [hears_iff]
  rw [List.filterMap_flatMap]
  simp only [hone]
  split
  · exact List.flatMap_singleton' es
  · exact List.flatMap_eq_nil_iff.2 fun _ _ => rfl

/-- Nothing is heard of a root that is not registered. -/
theorem heardRoot_of_none (h : s.Sound) {number : Nat} (hroot : s.workspace.root? number = none)
    (position : Nat) (e : EnvChange) : s.heardRoot number position e = [] := by
  rw [heardRoot, ownerOf]
  cases hsource : s.workspace.source? number position with
  | none => rfl
  | some x =>
      -- the source is that of a root that is gone, so the workspace alone may still listen to it
      rw [Workspace.source?, List.find?_append, ← Workspace.root?, hroot, Option.none_or] at hsource
      obtain ⟨r, hr, hx⟩ := Option.bind_eq_some_iff.1 hsource
      have hnumber : r.number = number := by simpa using List.find?_some hr
      have hsecluded :=
        h.workspace.secluded r (List.mem_of_find?_eq_some hr) x (List.mem_of_getElem? hx)
      refine List.flatMap_eq_nil_iff.2 fun hearer hhearer => ?_
      rw [hsecluded hearer hhearer, hnumber]
      simp only [hroot]

/-- A source of a registered root is heard as long as the workspace has clients. -/
theorem heardRoot_of_some (h : s.Sound) {number : Nat} {r : WorkspaceRoot}
    (hroot : s.workspace.root? number = some r) (position : Nat) (e : EnvChange) :
    s.heardRoot number position e =
      ((r.sources[position]?.filter (·.watched.locator.reportsChanges)).toList.map fun _ =>
        { e with searchLocation := some (e.searchLocation.getD r.root) }).flatMap
          s.heardWorkspace := by
  have hmem : r ∈ s.workspace.roots := List.mem_of_find?_eq_some hroot
  have hnumber : r.number = number := by simpa using List.find?_some hroot
  have hsource : s.workspace.source? number position = r.sources[position]? := by
    rw [Workspace.source?, List.find?_append, ← Workspace.root?, hroot]
    rfl
  rw [heardRoot, ownerOf, hsource]
  cases hx : r.sources[position]? with
  | none => rfl
  | some x =>
      have hheard := h.workspace.heard r hmem x (List.mem_of_getElem? hx)
      rw [RootSource.Heard, hnumber] at hheard
      rw [Option.map_some, Option.elim_some, heardSource, hheard, Option.filter_some]
      cases hreports : x.watched.locator.reportsChanges with
      | false => simp
      | true =>
          cases hforwarding : s.workspace.forwarding with
          | false => simp [heardWorkspace_eq h, h.silent hforwarding]
          | true => simp [hroot, Option.or_some]

/-- A report is heard as it is announced. -/
theorem heardRoot_eq_announced (h : s.Sound) (number position : Nat) (e : EnvChange)
    (s' : Session) :
    s.heardRoot number position e =
      (s.announced (.report number position e) s').flatMap s.heardWorkspace := by
  rw [announced, reporting]
  cases hroot : s.workspace.root? number with
  | none =>
      rw [heardRoot_of_none h hroot, Option.bind_none, Option.toList_none, List.map_nil,
        List.flatMap_nil]
  | some r => rw [heardRoot_of_some h hroot, Option.bind_some, Option.toList_map, List.map_map]; rfl

/-- Every step tells all clients what it announces, and no more. -/
theorem news_step (h : s.Sound) (hstep : s.Step a s') :
    s'.news = s.news ++ (s.announced a s').flatMap s.heardWorkspace := by
  cases hstep with
  | wasOpen => simp [announced]
  | openedApart => simp [announced]
  | @opened root r w hclosed hattached hnew hnumber hroot =>
      have hchanged : (s.workspace.roots ++ [r]).map (·.root) ≠ s.workspace.paths := by
        simp [Workspace.paths]
      rw [announced, Workspace.paths, if_neg hchanged, List.flatMap_singleton]
  | wasClosed => simp [announced]
  | closedApart => simp [announced]
  | @closed root retired w hopen hattached hthere =>
      have hchanged : (s.workspace.roots.filter (!·.root.samePlace root)).map (·.root) ≠
          s.workspace.paths := by
        obtain ⟨p, hp, hsame⟩ := List.any_eq_true.1 hthere
        intro heq
        rw [← heq] at hp
        obtain ⟨r, hr, rfl⟩ := List.mem_map.1 hp
        have hout := (List.mem_filter.1 hr).2
        rw [hsame] at hout
        cases hout
      rw [announced, Workspace.paths, if_neg hchanged, List.flatMap_singleton]
  | @subscribed client roots w =>
      rw [announced, List.flatMap_nil, List.append_nil]
      exact ((s.registered client roots w).withdrawn_frame client).2.2.1
  | @unsubscribed client =>
      rw [announced, List.flatMap_nil, List.append_nil]
      exact (s.withdrawn_frame client).2.2.1
  | reported => exact congrArg (s.news ++ ·) (heardRoot_eq_announced h _ _ _ _)
  | disposed => simp [announced]

theorem heardBy_step (h : s.Sound) (hstep : s.Step a s') (client : String) :
    s'.heardBy client = s.heardBy client ++ if s.hears client then s.announced a s' else [] := by
  rw [heardBy, news_step h hstep, List.filterMap_append, filterMap_heardWorkspace h]
  rfl

theorem any_name_filter (clients : List (String × Registration)) (name client : String) :
    (clients.filter (·.1 != name)).any (·.1 == client) =
      (clients.any (·.1 == client) && name != client) := by
  rw [List.any_filter, Bool.eq_iff_iff]
  simp only [List.any_eq_true, Bool.and_eq_true, bne_iff_ne, beq_iff_eq]
  constructor
  · rintro ⟨c, hc, hname, rfl⟩
    exact ⟨⟨c, hc, rfl⟩, hname.symm⟩
  · rintro ⟨⟨c, hc, rfl⟩, hname⟩
    exact ⟨c, hc, hname.symm, rfl⟩

theorem hears_step (hstep : s.Step a s') (client : String) :
    s'.hears client = a.hears client (s.hears client) := by
  cases hstep with
  | @subscribed name =>
      rw [hears, List.any_append, any_name_filter, WorkspaceAct.hears, hears,
        List.any_cons, List.any_nil]
      cases hname : name == client with
      | true => simp
      | false => simp [bne, hname]
  | @unsubscribed name => exact any_name_filter s.clients name client
  | _ => rfl

/-- What a client has heard after a run is what is due to it. -/
theorem Sound.heardBy_acts (h : s.Sound) (client : String) (as : List WorkspaceAct) :
    (s.acts as).heardBy client = s.heardBy client ++ due client (s.hears client) s as := by
  induction as generalizing s with
  | nil => rw [acts_nil, due, List.append_nil]
  | cons a as ih =>
      have hstep := s.act_step a
      rw [acts_cons, ih (h.step hstep), heardBy_step h hstep, hears_step hstep,
        List.append_assoc, due]

/-! ### Roots that are gone -/

/-- No number is given twice, and a root that is gone stays gone. -/
theorem Step.grows (hstep : s.Step a s') :
    s.workspace.next ≤ s'.workspace.next ∧ s.workspace.gone ⊆ s'.workspace.gone := by
  cases hstep with
  | opened => exact ⟨Nat.le_succ _, List.Subset.refl _⟩
  | closed => exact ⟨Nat.le_refl _, List.subset_append_left _ _⟩
  | disposed => exact ⟨Nat.le_refl _, List.subset_append_left _ _⟩
  | @subscribed client roots w =>
      obtain ⟨-, -, -, emitter, hworkspace⟩ := (s.registered client roots w).withdrawn_frame client
      exact ⟨Nat.le_of_eq (congrArg Workspace.next hworkspace).symm,
        fun _ hr => by rwa [hworkspace]⟩
  | @unsubscribed client =>
      obtain ⟨-, -, -, emitter, hworkspace⟩ := s.withdrawn_frame client
      exact ⟨Nat.le_of_eq (congrArg Workspace.next hworkspace).symm,
        fun _ hr => by rwa [hworkspace]⟩
  | _ => exact ⟨Nat.le_refl _, List.Subset.refl _⟩

theorem Sound.acts (h : s.Sound) (as : List WorkspaceAct) : (s.acts as).Sound :=
  acts_induction h fun _ _ _ _ h hstep => h.step hstep

theorem next_le_acts (s : Session) (as : List WorkspaceAct) :
    s.workspace.next ≤ (s.acts as).workspace.next :=
  acts_induction (P := fun t => s.workspace.next ≤ t.workspace.next) (Nat.le_refl _)
    fun _ _ _ _ h hstep => Nat.le_trans h hstep.grows.1

theorem gone_subset_acts (s : Session) (as : List WorkspaceAct) :
    s.workspace.gone ⊆ (s.acts as).workspace.gone :=
  acts_induction (P := fun t => s.workspace.gone ⊆ t.workspace.gone) (List.Subset.refl _)
    fun _ _ _ _ h hstep => List.Subset.trans h hstep.grows.2

/-- A root that was registered and is not any more is never registered again. -/
theorem root?_acts_eq_none (h : s.Sound) {number : Nat} (hnumber : number < s.workspace.next)
    (hroot : s.workspace.root? number = none) (as : List WorkspaceAct) :
    (s.acts as).workspace.root? number = none := by
  have hgone : number ∈ s.workspace.gone.map (·.number) :=
    (h.workspace.mem_gone_iff number).2 ⟨hnumber, hroot⟩
  have hstays := List.map_subset (·.number) (s.gone_subset_acts as) hgone
  exact (((h.acts as).workspace.mem_gone_iff number).1 hstays).2

theorem lt_next_of_root? (h : s.Sound) {number : Nat}
    (hroot : (s.workspace.root? number).isSome = true) :
    number < s.workspace.next := by
  obtain ⟨r, hr⟩ := Option.isSome_iff_exists.1 hroot
  have hmem : number ∈ (s.workspace.roots ++ s.workspace.gone).map (·.number) := by
    have hnumber : r.number = number := by simpa using List.find?_some hr
    exact List.mem_map.2 ⟨r, List.mem_append_left _ (List.mem_of_find?_eq_some hr), hnumber⟩
  rwa [h.workspace.numbers.mem_iff, List.mem_range] at hmem

/-- **Clients hear what is due to them.** In any run, from any folders: what a client has heard is,
once each and in order, what was announced while it listened, that is the folders that changed the
roots and the reports of sources of registered roots, placed at the root if they named no place.
Every root that ever was has a number of its own, and of the sources of a root that has been removed
nothing is heard again, whatever folders are opened later. -/
theorem clients_hear_what_is_due (factories : List RootFactory) (machine : Machine)
    (cache : Option Resolution.Cache) (now : Timestamp) (store : Store) (sources : List Locator)
    (watcher : Watcher) (folders : List Path) (joinsWorkspace : Bool) (client : String) :
    let start := newWith factories machine cache now store sources watcher folders joinsWorkspace
    (∀ as, (start.acts as).heardBy client = due client false start as) ∧
      (∀ as, (((start.acts as).workspace.roots ++ (start.acts as).workspace.gone).map
        (·.number)).Nodup) ∧
      ∀ (before between later : List WorkspaceAct) (number position : Nat) (e : EnvChange),
        ((start.acts before).workspace.root? number).isSome = true →
        (start.acts (before ++ between)).workspace.root? number = none →
          let s := start.acts (before ++ between ++ later)
          (s.act (.report number position e)).heardBy client = s.heardBy client := by
  intro start
  have hstart : start.Sound :=
    sound_newWith factories machine cache now store sources watcher folders joinsWorkspace
  refine ⟨hstart.heardBy_acts client, fun as => (hstart.acts as).workspace.nodup_numbers, ?_⟩
  intro before between later number position e hbefore hbetween s
  have hs : s.Sound := hstart.acts (before ++ between ++ later)
  have hnumber : number < (start.acts (before ++ between)).workspace.next := by
    rw [acts_append]
    exact Nat.lt_of_lt_of_le (lt_next_of_root? (hstart.acts before) hbefore)
      (next_le_acts _ between)
  have hnone : s.workspace.root? number = none := by
    change (start.acts (before ++ between ++ later)).workspace.root? number = none
    rw [acts_append]
    exact root?_acts_eq_none (hstart.acts _) hnumber hbetween later
  have hsilent : s.announced (.report number position e) (s.act (.report number position e)) =
      [] := by
    rw [announced, reporting, hnone]
    rfl
  rw [heardBy_step hs (s.act_step (.report number position e)), hsilent, ite_self, List.append_nil]

/-- A folder is closed in a spelling of its own and opened again: the client hears of both, and of a
change that the new source reports, but not of one that the old source reports. -/
theorem clients_hear_what_is_due_reopened :
    let folders : List Path := [⟨"/ws/a"⟩]
    let before : List WorkspaceAct := [.subscribe "client"]
    let between : List WorkspaceAct := [.closeFolder ⟨"/ws/x/../a"⟩]
    let later : List WorkspaceAct := [.openFolder ⟨"/ws/a"⟩]
    let start := overFolders folders
    let s := start.acts (before ++ between ++ later)
    ((start.acts before).workspace.root? 0).isSome = true ∧
      (start.acts (before ++ between)).workspace.root? 0 = none ∧
      s.heardBy "client" = [.ofLocation ⟨"/ws/x/../a"⟩, .ofLocation ⟨"/ws/a"⟩] ∧
      (s.act (.report 0 0 .anything)).heardBy "client" = s.heardBy "client" ∧
      (start.acts (before ++ between ++ later ++ [.report 1 0 .anything])).heardBy "client" =
        [.ofLocation ⟨"/ws/x/../a"⟩, .ofLocation ⟨"/ws/a"⟩, .ofLocation ⟨"/ws/a"⟩] := by
  intro folders before between later start s
  have hbefore : ((start.acts before).workspace.root? 0).isSome = true := by decide +kernel
  have hbetween : (start.acts (before ++ between)).workspace.root? 0 = none := by
    rw [← Option.isNone_iff_eq_none]
    decide +kernel
  obtain ⟨hheard, -, hgone⟩ :=
    clients_hear_what_is_due [RootVirtualEnvs.factory] .bare none ⟨0, 0⟩ .inMemory []
    (.new true []) folders true "client"
  refine ⟨hbefore, hbetween, (hheard _).trans ?_, ?_, (hheard _).trans ?_⟩
  · decide +kernel
  · exact hgone before between later 0 0 .anything hbefore hbetween
  · decide +kernel

end Session

end EnvDiscovery
