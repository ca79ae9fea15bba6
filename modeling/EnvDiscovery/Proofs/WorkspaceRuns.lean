import EnvDiscovery.Discovery.Session
import Mathlib.Data.List.Induction

/-!
**Runs of a workspace.**

The host opens and closes folders, clients come and go, the sources of the roots report changes, and
at last the workspace ends. Each of these acts does one of a few things to a session, and whatever
is to be said about runs follows from that.

Main definitions:
* `WorkspaceAct`, `Session.act`, `Session.acts` — what may happen, and the session after it;
* `Watcher.SameNative` — watches that come and go without a change of the native roots;
* `WorkspaceRoot.Heard`, `WorkspaceRoot.Secluded` — who listens to the sources of a root;
* `Session.Step` — what an act can do.

Main results:
* `Workspace.addRoot_of_new`, `Workspace.removeRoot_of_mem`, `Workspace.subscribe_spec`,
  `Workspace.dispose_spec` — the changes of a workspace;
* `Workspace.ofFolders_induction` — what holds of the workspace over the folders that are open at
  first;
* `Session.act_step` — **every act is one of these steps**;
* `Session.acts_induction` — what every step keeps, every run keeps.
-/

namespace EnvDiscovery

/-! ### Watches and native roots -/

namespace Watcher

/-- The native roots are the same, whatever is watched. -/
structure SameNative (w w' : Watcher) : Prop where
  enabled : w'.enabled = w.enabled
  native : w'.native = w.native

theorem SameNative.refl (w : Watcher) : SameNative w w := ⟨rfl, rfl⟩

theorem SameNative.of_eq {w w' : Watcher} (h : w' = w) : SameNative w w' := h ▸ .refl w

theorem SameNative.trans {w w' w'' : Watcher} (h : SameNative w w') (h' : SameNative w' w'') :
    SameNative w w'' :=
  ⟨h'.enabled.trans h.enabled, h'.native.trans h.native⟩

theorem startOne_sameNative (w : Watcher) (owner : WatchOwner) (t : WatchTarget) :
    SameNative w (w.startOne owner t).1 := by
  unfold startOne
  split
  · exact ⟨rfl, rfl⟩
  · exact .refl w

theorem start_sameNative (w : Watcher) (owner : WatchOwner) (ts : List WatchTarget) :
    SameNative w (w.start owner ts).1 := by
  induction ts generalizing w with
  | nil => exact .refl w
  | cons t ts ih => exact (w.startOne_sameNative owner t).trans (ih _)

theorem stop_sameNative (w : Watcher) (handles : List Nat) : SameNative w (w.stop handles) :=
  ⟨rfl, rfl⟩

section Through

variable {α β γ : Type} {f : Watcher → α → β × Watcher}

theorem through_cons (f : Watcher → α → β × Watcher) (w : Watcher) (a : α) (as : List α) :
    w.through f (a :: as) = ((f w a).1 :: ((f w a).2.through f as).1, ((f w a).2.through f as).2) :=
      rfl

/-- What treating an element keeps, treating a list keeps. -/
theorem through_sameNative (h : ∀ w a, SameNative w (f w a).2) (w : Watcher) (as : List α) :
    SameNative w (w.through f as).2 := by
  induction as generalizing w with
  | nil => exact .refl w
  | cons a as ih =>
      rw [through_cons]
      exact (h w a).trans (ih _)

theorem mem_through {w : Watcher} {as : List α} {b : β} (h : b ∈ (w.through f as).1) :
    ∃ w', ∃ a ∈ as, b = (f w' a).1 := by
  induction as generalizing w with
  | nil => cases h
  | cons a as ih =>
      rw [through_cons] at h
      rcases List.mem_cons.1 h with rfl | h
      · exact ⟨w, a, List.mem_cons_self, rfl⟩
      · obtain ⟨w', a', ha', rfl⟩ := ih h
        exact ⟨w', a', List.mem_cons_of_mem _ ha', rfl⟩

theorem map_through {g : β → γ} {g' : α → γ} (h : ∀ w a, g (f w a).1 = g' a) (w : Watcher)
    (as : List α) :
    (w.through f as).1.map g = as.map g' := by
  induction as generalizing w with
  | nil => rfl
  | cons a as ih => rw [through_cons, List.map_cons, List.map_cons, h, ih]

end Through

end Watcher

/-! ### Listeners of a source -/

theorem Emitter.current_add {α : Type} (e : Emitter α) (a : α) :
    (e.add a).1.current = e.current ++ [a] := by
  simp [Emitter.add, Emitter.current]

theorem Emitter.mem_current_remove {α : Type} {e : Emitter α} {id : Nat} {a : α}
    (h : a ∈ (e.remove id).current) : a ∈ e.current := by
  obtain ⟨p, hp, rfl⟩ := List.mem_map.1 h
  exact List.mem_map_of_mem (List.mem_filter.1 hp).1

namespace WatchedLocator

variable {x : WatchedLocator}

theorem subscribe_of_silent (hx : x.locator.reportsChanges = false) (host : Host) (w : Watcher)
    (owner : WatchOwner) (h : Hearer) : x.subscribe host w owner h = none := by
  simp [subscribe, hx]

/-- A source that reports changes takes every listener. -/
theorem subscribe_of_reports (hx : x.locator.reportsChanges = true) (host : Host) (w : Watcher)
    (owner : WatchOwner) (h : Hearer) :
    ∃ x' w' number, x.subscribe host w owner h = some (x', w', number) ∧ x'.locator = x.locator ∧
      x'.notifier.emitter.current = x.notifier.emitter.current ++ [h] ∧
      Watcher.SameNative w w' := by
  rw [subscribe, if_neg (by simp [hx])]
  split
  · exact ⟨_, _, _, rfl, rfl, Emitter.current_add _ h, .refl w⟩
  · exact ⟨_, _, _, rfl, rfl, Emitter.current_add _ h, Watcher.start_sameNative w owner _⟩

end WatchedLocator

namespace RootSource

/-- The workspace alone listens to a source that reports changes, on behalf of the root of a number;
without `on` nobody listens. -/
def Heard (number : Nat) (on : Bool) (x : RootSource) : Prop :=
  x.watched.notifier.emitter.current =
    if on && x.watched.locator.reportsChanges then [.workspace number] else []

theorem heard_ofLocator (number : Nat) (l : Locator) : (ofLocator l).Heard number false := rfl

/-- A source that nobody listens to begins to report to the workspace. -/
theorem report_spec (host : Host) (number : Nat) (w : Watcher) (x : RootSource × Nat) :
    (x.1.Heard number false → (report host number w x).1.Heard number true) ∧
      Watcher.SameNative w (report host number w x).2 := by
  cases hx : x.1.watched.locator.reportsChanges with
  | false =>
      have hreport : report host number w x = (x.1, w) := by
        rw [report, WatchedLocator.subscribe_of_silent hx]
      rw [hreport]
      refine ⟨fun h => ?_, .refl w⟩
      rw [Heard] at h ⊢
      simpa [hx] using h
  | true =>
      obtain ⟨x', w', n, hsub, hlocator, hcurrent, hw⟩ :=
        WatchedLocator.subscribe_of_reports hx host w (.root number x.2) (.workspace number)
      have hreport : report host number w x = (⟨x', some n⟩, w') := by
        rw [report, hsub]
      rw [hreport]
      refine ⟨fun h => ?_, hw⟩
      have hnobody : x.1.watched.notifier.emitter.current = [] := by simpa [Heard] using h
      rw [Heard]
      simp [hlocator, hx, hcurrent, hnobody]

/-- A source whose root goes gets no new listeners. -/
theorem retire_spec (w : Watcher) (x : RootSource) :
    (∀ h ∈ (retire w x).1.watched.notifier.emitter.current,
      h ∈ x.watched.notifier.emitter.current) ∧
      Watcher.SameNative w (retire w x).2 := by
  obtain ⟨watched, _ | n⟩ := x
  · exact ⟨fun h hh => hh, Watcher.stop_sameNative w _⟩
  · exact ⟨fun h hh => Emitter.mem_current_remove hh, Watcher.stop_sameNative w _⟩

end RootSource

namespace WorkspaceRoot

/-- The workspace alone listens to the sources of the root; without `on` nobody does. -/
def Heard (on : Bool) (r : WorkspaceRoot) : Prop :=
  ∀ x ∈ r.sources, x.Heard r.number on

/-- Nobody listens to the sources of the root but the workspace, and that on behalf of the root. -/
def Secluded (r : WorkspaceRoot) : Prop :=
  ∀ x ∈ r.sources, ∀ h ∈ x.watched.notifier.emitter.current, h = .workspace r.number

theorem Heard.secluded {on : Bool} {r : WorkspaceRoot} (h : r.Heard on) : r.Secluded := by
  intro x hx hearer hhearer
  rw [h x hx] at hhearer
  split at hhearer
  · exact List.mem_singleton.1 hhearer
  · cases hhearer

theorem heard_make (factories : List RootFactory) (number : Nat) (root : Path) :
    (make factories number root).Heard false := by
  intro x hx
  obtain ⟨l, -, rfl⟩ := List.mem_map.1 hx
  exact RootSource.heard_ofLocator number l.1

theorem forward_number (host : Host) (w : Watcher) (r : WorkspaceRoot) :
    (r.forward host w).1.number = r.number := rfl

theorem forward_root (host : Host) (w : Watcher) (r : WorkspaceRoot) :
    (r.forward host w).1.root = r.root := rfl

theorem forward_heard (host : Host) (w : Watcher) {r : WorkspaceRoot} (h : r.Heard false) :
    (r.forward host w).1.Heard true := by
  intro y hy
  obtain ⟨w', x, hx, rfl⟩ := Watcher.mem_through hy
  exact (RootSource.report_spec host r.number w' x).1 (h x.1 (List.fst_mem_of_mem_zipIdx hx))

theorem forward_sameNative (host : Host) (w : Watcher) (r : WorkspaceRoot) :
    Watcher.SameNative w (r.forward host w).2 :=
  Watcher.through_sameNative (fun w x => (RootSource.report_spec host r.number w x).2) w _

theorem retire_number (w : Watcher) (r : WorkspaceRoot) : (r.retire w).1.number = r.number := rfl

theorem retire_secluded (w : Watcher) {r : WorkspaceRoot} (h : r.Secluded) :
    (r.retire w).1.Secluded := by
  intro y hy hearer hhearer
  obtain ⟨w', x, hx, rfl⟩ := Watcher.mem_through hy
  exact h x hx hearer ((RootSource.retire_spec w' x).1 hearer hhearer)

theorem retire_sameNative (w : Watcher) (r : WorkspaceRoot) : Watcher.SameNative w (r.retire w).2 :=
  Watcher.through_sameNative (fun w x => (RootSource.retire_spec w x).2) w _

/-- What becomes of roots that go: their numbers stay, and nobody new listens to their sources. -/
structure Retired (roots retired : List WorkspaceRoot) : Prop where
  numbers : retired.map (·.number) = roots.map (·.number)
  secluded : (∀ r ∈ roots, r.Secluded) → ∀ r ∈ retired, r.Secluded

theorem retired_through (w : Watcher) (roots : List WorkspaceRoot) :
    Retired roots (w.through retire roots).1 := by
  refine ⟨Watcher.map_through retire_number w roots, ?_⟩
  intro h r' hr'
  obtain ⟨w', r, hr, rfl⟩ := Watcher.mem_through hr'
  exact retire_secluded w' (h r hr)

end WorkspaceRoot

/-! ### Changes of a workspace -/

namespace Workspace

variable {ws : Workspace} {root : Path}

theorem addRoot_of_mem (h : ws.paths.any (·.samePlace root) = true) (host : Host) (w : Watcher) :
    ws.addRoot host w root = none := by
  rw [addRoot, if_pos h]

/-- A new root is the last one. It has a number of its own, and is listened to if the others are. -/
theorem addRoot_of_new (h : ws.paths.any (·.samePlace root) = false) (host : Host) (w : Watcher) :
    ∃ r w', ws.addRoot host w root =
        some ({ ws with roots := ws.roots ++ [r], next := ws.next + 1 }, w') ∧
      r.number = ws.next ∧ r.root = root ∧ r.Heard ws.forwarding ∧ Watcher.SameNative w w' := by
  have hmade := WorkspaceRoot.heard_make ws.factories ws.next root
  rw [addRoot, if_neg (by simp [h])]
  cases hforwarding : ws.forwarding with
  | false => exact ⟨_, w, rfl, rfl, rfl, hmade, .refl w⟩
  | true =>
      exact ⟨_, _, rfl, rfl, rfl, WorkspaceRoot.forward_heard host w hmade,
        WorkspaceRoot.forward_sameNative host w _⟩

theorem filter_root_eq_nil (h : ws.paths.any (·.samePlace root) = false) :
    ws.roots.filter (·.root.samePlace root) = [] := by
  rw [List.filter_eq_nil_iff]
  intro r hr hsame
  rw [← Bool.not_eq_true, List.any_eq_true] at h
  exact h ⟨r.root, List.mem_map_of_mem hr, hsame⟩

theorem removeRoot_of_notMem (h : ws.paths.any (·.samePlace root) = false) (w : Watcher) :
    ws.removeRoot w root = none := by
  simp [removeRoot, filter_root_eq_nil h]

/-- A root that is removed is gone, and its sources with it. -/
theorem removeRoot_of_mem (h : ws.paths.any (·.samePlace root) = true) (w : Watcher) :
    ∃ retired w', ws.removeRoot w root = some ({ ws with
        roots := ws.roots.filter (!·.root.samePlace root)
        gone := ws.gone ++ retired }, w') ∧
      WorkspaceRoot.Retired (ws.roots.filter (·.root.samePlace root)) retired ∧
        Watcher.SameNative w w' := by
  have hthere : (ws.roots.filter (·.root.samePlace root)).isEmpty = false := by
    obtain ⟨p, hp, hsame⟩ := List.any_eq_true.1 h
    obtain ⟨r, hr, rfl⟩ := List.mem_map.1 hp
    rw [List.isEmpty_eq_false_iff]
    exact List.ne_nil_of_mem (List.mem_filter.2 ⟨hr, hsame⟩)
  refine ⟨_, _, by rw [removeRoot, if_neg (by simp [hthere])], ?_, ?_⟩
  · exact WorkspaceRoot.retired_through w _
  · exact Watcher.through_sameNative WorkspaceRoot.retire_sameNative w _

/-- A new listener is the last one, and from then on the workspace listens to all its roots. -/
theorem subscribe_spec (ws : Workspace) (host : Host) (w : Watcher) (h : Hearer) :
    ∃ roots w', ws.subscribe host w h =
        ({ ws with emitter := (ws.emitter.add h).1, roots := roots, forwarding := true }, w',
          ws.emitter.next) ∧
      roots.map (·.number) = ws.roots.map (·.number) ∧ roots.map (·.root) = ws.paths ∧
      ((∀ r ∈ ws.roots, r.Heard ws.forwarding) → ∀ r ∈ roots, r.Heard true) ∧
      Watcher.SameNative w w' := by
  cases hforwarding : ws.forwarding with
  | true =>
      refine ⟨ws.roots, w, ?_, rfl, rfl, fun hroots => hroots, .refl w⟩
      simp only [subscribe, hforwarding]
      rfl
  | false =>
      refine ⟨(w.through (WorkspaceRoot.forward host) ws.roots).1,
        (w.through (WorkspaceRoot.forward host) ws.roots).2, ?_, ?_, ?_, ?_, ?_⟩
      · simp only [subscribe, hforwarding]
        rfl
      · exact Watcher.map_through (WorkspaceRoot.forward_number host) w _
      · exact Watcher.map_through (WorkspaceRoot.forward_root host) w _
      · intro hroots r' hr'
        obtain ⟨w', r, hr, rfl⟩ := Watcher.mem_through hr'
        exact WorkspaceRoot.forward_heard host w' (hroots r hr)
      · exact Watcher.through_sameNative (WorkspaceRoot.forward_sameNative host) w _

/-- At the end all roots are gone. -/
theorem dispose_spec (ws : Workspace) (w : Watcher) :
    ∃ retired w', ws.dispose w =
        ({ ws with roots := [], gone := ws.gone ++ retired, attached := false }, w') ∧
      WorkspaceRoot.Retired ws.roots retired ∧ Watcher.SameNative w w' :=
  ⟨_, _, rfl, WorkspaceRoot.retired_through w _,
    Watcher.through_sameNative WorkspaceRoot.retire_sameNative w _⟩

/-! ### The workspace at first -/

theorem ofFolders_concat (factories : List RootFactory) (host : Host) (w : Watcher)
    (folders : List Path) (root : Path) :
    ofFolders factories host w (folders ++ [root]) =
      ((ofFolders factories host w folders).1.addRoot host
        (ofFolders factories host w folders).2 root).getD
        (ofFolders factories host w folders) := by
  rw [ofFolders, List.foldl_append]
  rfl

/-- What holds without folders, and stays when a folder is met again or becomes a root, holds of the
workspace over any folders. -/
theorem ofFolders_induction {P : List Path → Workspace → Watcher → Prop}
    (factories : List RootFactory) (host : Host) (w : Watcher) (folders : List Path)
    (hempty : P [] (empty factories) w) (hagain : ∀ folders ws w root, P folders ws w →
      ws.paths.any (·.samePlace root) = true →
      P (folders ++ [root]) ws w)
    (hnew : ∀ folders ws w root r w', P folders ws w → ws.paths.any (·.samePlace root) = false →
      r.number = ws.next → r.root = root → r.Heard ws.forwarding → Watcher.SameNative w w' →
        P (folders ++ [root]) { ws with roots := ws.roots ++ [r], next := ws.next + 1 } w') :
    P folders (ofFolders factories host w folders).1 (ofFolders factories host w folders).2 := by
  induction folders using List.reverseRecOn with
  | nil => exact hempty
  | append_singleton folders root ih =>
      rw [ofFolders_concat]
      generalize ofFolders factories host w folders = start at ih ⊢
      obtain ⟨ws, w⟩ := start
      cases hmem : ws.paths.any (·.samePlace root) with
      | true =>
          rw [addRoot_of_mem hmem]
          exact hagain folders ws w root ih hmem
      | false =>
          obtain ⟨r, w', hadd, hnumber, hroot, hheard, hw⟩ := addRoot_of_new hmem host w
          rw [hadd]
          exact hnew folders ws w root r w' ih hmem hnumber hroot hheard hw

theorem ofFolders_sameNative (factories : List RootFactory) (host : Host) (w : Watcher)
    (folders : List Path) :
    Watcher.SameNative w (ofFolders factories host w folders).2 := by
  refine ofFolders_induction (P := fun _ _ w' => Watcher.SameNative w w') factories host w folders
    (.refl w) ?_ ?_
  · exact fun _ _ _ _ h _ => h
  · exact fun _ _ _ _ _ _ h _ _ _ _ hw => h.trans hw

end Workspace

/-! ### Acts -/

/-- What may happen to the workspace of a session: the host opens or closes a folder, a client
subscribes or not, the source at a position of the root of a number reports a change, or the
workspace ends. -/
inductive WorkspaceAct where
  | openFolder (root : Path)
  | closeFolder (root : Path)
  | subscribe (client : String)
  | unsubscribe (client : String)
  | report (number position : Nat) (e : EnvChange)
  | dispose
deriving DecidableEq

namespace Session

/-- The session after an act. -/
def act (s : Session) : WorkspaceAct → Session
  | .openFolder root => ((openFolder root).run s).2
  | .closeFolder root => ((closeFolder root).run s).2
  | .subscribe client => ((subscribe client .workspace).run s).2
  | .unsubscribe client => ((unsubscribe client).run s).2
  | .report number position e => ((fire (.root number position) e).run s).2
  | .dispose => s.disposeWorkspace

/-- The session after some acts. -/
def acts (s : Session) (as : List WorkspaceAct) : Session :=
  as.foldl act s

@[simp] theorem acts_nil (s : Session) : s.acts [] = s := rfl

@[simp] theorem acts_cons (s : Session) (a : WorkspaceAct) (as : List WorkspaceAct) :
    s.acts (a :: as) = (s.act a).acts as := rfl

theorem acts_append (s : Session) (as bs : List WorkspaceAct) :
    s.acts (as ++ bs) = (s.acts as).acts bs :=
  List.foldl_append

/-- The session without the registration of a client. -/
def withdrawn (s : Session) (client : String) : Session :=
  (s.clients.lookup client).elim s s.withdraw

/-- The session with a client that listens to the workspace, whose roots report to it. -/
def registered (s : Session) (client : String) (roots : List WorkspaceRoot) (w : Watcher) :
    Session := { s with
  watcher := w
  workspace := { s.workspace with
    emitter := (s.workspace.emitter.add (.client client)).1
    roots := roots
    forwarding := true } }

/-- What is heard when the source at a position of the root of a number reports a change. -/
def heardRoot (s : Session) (number position : Nat) (e : EnvChange) : List News :=
  (s.ownerOf (.root number position)).elim [] (s.heardSource · e)

/-- What an act can do. -/
inductive Step (s : Session) : WorkspaceAct → Session → Prop where
  /-- The folder is open already. -/
  | wasOpen {root : Path} (h : s.folders.any (·.samePlace root) = true) :
      Step s (.openFolder root) s
  /-- A folder is opened, but the workspace does not follow, or has the root. -/
  | openedApart {root : Path} (h : s.folders.any (·.samePlace root) = false)
      (hws : s.workspace.attached = false ∨ s.workspace.paths.any (·.samePlace root) = true) :
      Step s (.openFolder root) { s with
        folders := s.folders ++ [root]
        watcher := s.watcher.addNative root }
  /-- A folder is opened, and the workspace follows. -/
  | opened {root : Path} {r : WorkspaceRoot} {w : Watcher}
      (h : s.folders.any (·.samePlace root) = false)
      (hattached : s.workspace.attached = true)
      (hnew : s.workspace.paths.any (·.samePlace root) = false)
      (hnumber : r.number = s.workspace.next) (hroot : r.root = root)
      (hheard : r.Heard s.workspace.forwarding)
      (hw : Watcher.SameNative (s.watcher.addNative root) w) :
      Step s (.openFolder root) { s with
        folders := s.folders ++ [root]
        watcher := w
        workspace :=
          { s.workspace with roots := s.workspace.roots ++ [r], next := s.workspace.next + 1 }
        news := s.news ++ s.heardWorkspace (.ofLocation root) }
  /-- The folder is not open. -/
  | wasClosed {root : Path} (h : s.folders.any (·.samePlace root) = false) : Step s
      (.closeFolder root) s
  /-- A folder is closed, but the workspace does not follow, or does not have the root. -/
  | closedApart {root : Path} (h : s.folders.any (·.samePlace root) = true)
      (hws : s.workspace.attached = false ∨ s.workspace.paths.any (·.samePlace root) = false) :
      Step s (.closeFolder root) { s with
        folders := s.folders.filter (!·.samePlace root)
        watcher := s.watcher.removeNative root }
  /-- A folder is closed, and the workspace follows. -/
  | closed {root : Path} {retired : List WorkspaceRoot} {w : Watcher}
      (h : s.folders.any (·.samePlace root) = true) (hattached : s.workspace.attached = true)
      (hthere : s.workspace.paths.any (·.samePlace root) = true)
      (hretired : WorkspaceRoot.Retired (s.workspace.roots.filter (·.root.samePlace root)) retired)
      (hw : Watcher.SameNative (s.watcher.removeNative root) w) :
      Step s (.closeFolder root) { s with
        folders := s.folders.filter (!·.samePlace root)
        watcher := w
        workspace := { s.workspace with
          roots := s.workspace.roots.filter (!·.root.samePlace root)
          gone := s.workspace.gone ++ retired }
        news := s.news ++ s.heardWorkspace (.ofLocation root) }
  /-- A client is registered, its older registration is dropped, and the workspace listens to all
  its roots. -/
  | subscribed {client : String} {roots : List WorkspaceRoot} {w : Watcher}
      (hnumbers : roots.map (·.number) = s.workspace.roots.map (·.number))
      (hpaths : roots.map (·.root) = s.workspace.paths)
      (hheard : (∀ r ∈ s.workspace.roots, r.Heard s.workspace.forwarding) →
        ∀ r ∈ roots, r.Heard true)
      (hw : Watcher.SameNative s.watcher w) :
      Step s (.subscribe client) { (s.registered client roots w).withdrawn client with
        clients := s.clients.filter (·.1 != client) ++
          [(client, ⟨.workspace, s.workspace.emitter.next⟩)] }
  /-- A client is registered no longer. -/
  | unsubscribed {client : String} :
      Step s (.unsubscribe client)
        { s.withdrawn client with clients := s.clients.filter (·.1 != client) }
  /-- A source reports a change. -/
  | reported {number position : Nat} {e : EnvChange} :
      Step s (.report number position e) { s with news := s.news ++ s.heardRoot number position e }
  /-- The workspace ends. -/
  | disposed {retired : List WorkspaceRoot} {w : Watcher}
      (hretired : WorkspaceRoot.Retired s.workspace.roots retired)
      (hw : Watcher.SameNative s.watcher w) :
      Step s .dispose { s with
        watcher := w
        workspace :=
          { s.workspace with
            roots := [], gone := s.workspace.gone ++ retired, attached := false } }

/-! ### Every act is a step -/

theorem rootOpened_of_mem (s : Session) {root : Path}
    (h : s.workspace.paths.any (·.samePlace root) = true) :
    ((rootOpened root).run s).2 = s := by
  rw [rootOpened, StateT.run_bind, StateT.run_get, pure_bind, Workspace.addRoot_of_mem h]
  rfl

theorem rootOpened_of_new (s : Session) {root : Path}
    (h : s.workspace.paths.any (·.samePlace root) = false) :
    ∃ r w, ((rootOpened root).run s).2 = { s with
        watcher := w
        workspace :=
          { s.workspace with roots := s.workspace.roots ++ [r], next := s.workspace.next + 1 }
        news := s.news ++ s.heardWorkspace (.ofLocation root) } ∧
      r.number = s.workspace.next ∧ r.root = root ∧ r.Heard s.workspace.forwarding ∧
      Watcher.SameNative s.watcher w := by
  obtain ⟨r, w, hadd, hr⟩ := Workspace.addRoot_of_new h s.machine.host s.watcher
  refine ⟨r, w, ?_, hr⟩
  rw [rootOpened, StateT.run_bind, StateT.run_get, pure_bind, hadd]
  rfl

theorem rootClosed_of_notMem (s : Session) {root : Path}
    (h : s.workspace.paths.any (·.samePlace root) = false) :
    ((rootClosed root).run s).2 = s := by
  rw [rootClosed, StateT.run_bind, StateT.run_get, pure_bind, Workspace.removeRoot_of_notMem h]
  rfl

theorem rootClosed_of_mem (s : Session) {root : Path}
    (h : s.workspace.paths.any (·.samePlace root) = true) :
    ∃ retired w, ((rootClosed root).run s).2 = { s with
        watcher := w
        workspace := { s.workspace with
          roots := s.workspace.roots.filter (!·.root.samePlace root)
          gone := s.workspace.gone ++ retired }
        news := s.news ++ s.heardWorkspace (.ofLocation root) } ∧
      WorkspaceRoot.Retired (s.workspace.roots.filter (·.root.samePlace root)) retired ∧
      Watcher.SameNative s.watcher w := by
  obtain ⟨retired, w, hremove, hretired⟩ := Workspace.removeRoot_of_mem h s.watcher
  refine ⟨retired, w, ?_, hretired⟩
  rw [rootClosed, StateT.run_bind, StateT.run_get, pure_bind, hremove]
  rfl

theorem openFolder_step (s : Session) (root : Path) :
    s.Step (.openFolder root) (s.act (.openFolder root)) := by
  have hact : s.act (.openFolder root) = ((openFolder root).run s).2 := rfl
  rw [openFolder, StateT.run_bind, StateT.run_get, pure_bind, Folders.open?] at hact
  cases hopen : s.folders.any (·.samePlace root) with
  | true =>
      rw [if_pos hopen] at hact
      exact hact ▸ .wasOpen hopen
  | false =>
      rw [if_neg (by simp [hopen])] at hact
      dsimp only at hact
      rw [StateT.run_bind] at hact
      cases hattached : s.workspace.attached with
      | false =>
          rw [if_neg (by simp [hattached])] at hact
          exact hact ▸ .openedApart hopen (.inl hattached)
      | true =>
          rw [if_pos hattached] at hact
          -- the workspace hears of the folder after the host has noted it
          let noted : Session :=
            { s with folders := s.folders ++ [root], watcher := s.watcher.addNative root }
          replace hact : s.act (.openFolder root) = ((rootOpened root).run noted).2 := hact
          cases hmem : s.workspace.paths.any (·.samePlace root) with
          | true =>
              rw [rootOpened_of_mem noted hmem] at hact
              exact hact ▸ .openedApart hopen (.inr hmem)
          | false =>
              obtain ⟨r, w, hrun, hnumber, hroot, hheard, hw⟩ := rootOpened_of_new noted hmem
              rw [hrun] at hact
              exact hact ▸ .opened hopen hattached hmem hnumber hroot hheard hw

theorem closeFolder_step (s : Session) (root : Path) :
    s.Step (.closeFolder root) (s.act (.closeFolder root)) := by
  have hact : s.act (.closeFolder root) = ((closeFolder root).run s).2 := rfl
  rw [closeFolder, StateT.run_bind, StateT.run_get, pure_bind, Folders.close?] at hact
  cases hopen : s.folders.any (·.samePlace root) with
  | false =>
      rw [if_neg (by simp [hopen])] at hact
      exact hact ▸ .wasClosed hopen
  | true =>
      rw [if_pos hopen] at hact
      dsimp only at hact
      rw [StateT.run_bind] at hact
      cases hattached : s.workspace.attached with
      | false =>
          rw [if_neg (by simp [hattached])] at hact
          exact hact ▸ .closedApart hopen (.inl hattached)
      | true =>
          rw [if_pos hattached] at hact
          let noted : Session := { s with
            folders := s.folders.filter (!·.samePlace root)
            watcher := s.watcher.removeNative root }
          replace hact : s.act (.closeFolder root) = ((rootClosed root).run noted).2 := hact
          cases hmem : s.workspace.paths.any (·.samePlace root) with
          | false =>
              rw [rootClosed_of_notMem noted hmem] at hact
              exact hact ▸ .closedApart hopen (.inr hmem)
          | true =>
              obtain ⟨retired, w, hrun, hretired, hw⟩ := rootClosed_of_mem noted hmem
              rw [hrun] at hact
              exact hact ▸ .closed hopen hattached hmem hretired hw

/-- A client that is not registered has no registrations to drop. -/
theorem filter_clients_of_lookup_none {clients : List (String × Registration)} {client : String}
    (h : clients.lookup client = none) : clients.filter (·.1 != client) = clients := by
  rw [List.filter_eq_self]
  intro c hc
  rw [bne_comm]
  exact List.lookup_eq_none_iff.1 h c hc

theorem unsubscribe_run (s : Session) (client : String) :
    ((unsubscribe client).run s).2 =
      { s.withdrawn client with clients := s.clients.filter (·.1 != client) } := by
  rw [unsubscribe, StateT.run_bind, StateT.run_get, pure_bind, withdrawn]
  cases hlookup : s.clients.lookup client with
  | none =>
      rw [filter_clients_of_lookup_none hlookup]
      rfl
  | some r => rfl

theorem subscribe_step (s : Session) (client : String) :
    s.Step (.subscribe client) (s.act (.subscribe client)) := by
  obtain ⟨roots, w, hsub, hnumbers, hpaths, hheard, hw⟩ :=
    s.workspace.subscribe_spec s.machine.host s.watcher (.client client)
  have hact : s.act (.subscribe client) = ((subscribe client .workspace).run s).2 := rfl
  have hregister : (register .workspace (.client client)).run s =
      (some ⟨.workspace, s.workspace.emitter.next⟩, s.registered client roots w) := by
    rw [register, StateT.run_bind, StateT.run_get, pure_bind, hsub]
    rfl
  have hrun : ((subscribe client .workspace).run s).2 =
      let t := ((unsubscribe client).run (s.registered client roots w)).2
      { t with clients := t.clients ++ [(client, ⟨.workspace, s.workspace.emitter.next⟩)] } := by
    rw [subscribe, StateT.run_bind, hregister]
    · rfl
    · exact fun h => by cases h
  rw [hrun, unsubscribe_run] at hact
  exact hact ▸ .subscribed hnumbers hpaths hheard hw

/-- **Every act is a step.** -/
theorem act_step (s : Session) (a : WorkspaceAct) : s.Step a (s.act a) := by
  cases a with
  | openFolder root => exact s.openFolder_step root
  | closeFolder root => exact s.closeFolder_step root
  | subscribe client => exact s.subscribe_step client
  | unsubscribe client =>
      have hact : s.act (.unsubscribe client) = _ := s.unsubscribe_run client
      exact hact ▸ .unsubscribed
  | report number position e =>
      have hact : s.act (.report number position e) =
          { s with news := s.news ++ s.heardRoot number position e } := by
        rw [act, fire, StateT.run_bind, StateT.run_get, pure_bind, heardRoot]
        cases s.ownerOf (.root number position) with
        | none =>
            rw [Option.elim_none, List.append_nil]
            rfl
        | some x => rfl
      exact hact ▸ .reported
  | dispose =>
      obtain ⟨retired, w, hdispose, hretired, hw⟩ := s.workspace.dispose_spec s.watcher
      rw [act, disposeWorkspace, hdispose]
      exact .disposed hretired hw

/-- What holds at first and every step of a run keeps, holds after the run. -/
theorem acts_induction {P : Session → Prop} {s : Session} {as : List WorkspaceAct} (hstart : P s)
    (hstep : ∀ s, ∀ a ∈ as, ∀ s', P s → s.Step a s' → P s') : P (s.acts as) := by
  induction as generalizing s with
  | nil => exact hstart
  | cons a as ih =>
      refine ih (hstep s a List.mem_cons_self (s.act a) hstart (s.act_step a)) ?_
      exact fun s b hb => hstep s b (List.mem_cons_of_mem a hb)

/-! ### What a client that goes leaves behind -/

/-- A registration that is withdrawn changes nothing but who listens. -/
theorem withdrawn_frame (s : Session) (client : String) :
    (s.withdrawn client).folders = s.folders ∧ (s.withdrawn client).watcher = s.watcher ∧
      (s.withdrawn client).news = s.news ∧
      ∃ emitter, (s.withdrawn client).workspace = { s.workspace with emitter := emitter } := by
  rw [withdrawn]
  cases s.clients.lookup client with
  | none => exact ⟨rfl, rfl, rfl, _, rfl⟩
  | some r =>
      obtain ⟨post, number⟩ := r
      cases post with
      | source position => exact ⟨rfl, rfl, rfl, _, rfl⟩
      | workspace => exact ⟨rfl, rfl, rfl, _, rfl⟩
      | joined => exact ⟨rfl, rfl, rfl, _, rfl⟩

end Session

/-- A machine without files and programs. -/
def Machine.bare : Machine :=
  ⟨⟨⟨fun _ => false, fun _ => none, fun _ => none, fun _ => [], fun _ => none, fun _ => none,
    fun _ => none⟩,
    ⟨none, []⟩⟩, ⟨fun _ => .error (.commandNotFound "" none)⟩, fun _ => none, defaultTimeout⟩

/-- A session on the bare machine that watches files, over some folders. -/
def Session.overFolders (folders : List Path) : Session :=
  newWith [RootVirtualEnvs.factory] .bare none ⟨0, 0⟩ .inMemory [] (.new true []) folders true

end EnvDiscovery
