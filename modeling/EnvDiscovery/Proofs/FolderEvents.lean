import EnvDiscovery.Proofs.Roots
import Mathlib.Data.List.Perm.Basic

/-!
**Folder events on their way.**

A call that opens or closes a folder does two things: the host notes the change in its list of
folders, and then the workspace hears of it. When several callers are at work the two steps of one
call fall between those of another, and an event can overtake an earlier one. A relay is a session
with the events that are on their way; its acts are the single steps, in any order.

The list of folders goes by the last change noted about a place, and the roots go by the last event
heard about it. So the two agree, once nothing is on its way, if the events about each place arrive
in the order in which they were noted. Events about different places may overtake each other.

Main definitions:
* `FolderEvent`, `FolderEvent.lastSays` — an event, and what the last of several says about a place;
* `Session.note?`, `Session.hear` — the two steps of a call;
* `Relay`, `Relay.act` — a session with events on their way;
* `Relay.oldestFirst`, `Relay.startsAlone` — events about a place that keep their order, and calls
  about a place that do not overlap.

Main results:
* `Session.act_call` — the two steps, one right after the other, are the call;
* `Relay.Kept.act`, `Relay.Queued.act` — what every step keeps;
* `Relay.roots_go_by_last_events` — **folders and roots of every interleaving**;
* `Relay.overtaken_event_stays` — an event that is overtaken decides, and a workspace that has ended
  hears nothing.
-/

namespace EnvDiscovery

/-! ### Events about places -/

/-- What the host tells of its folders. -/
inductive FolderEvent where
  | opened (root : Path)
  | closed (root : Path)
deriving DecidableEq

namespace FolderEvent

/-- The folder that an event is about. -/
def root : FolderEvent → Path
  | opened root => root
  | closed root => root

def isOpening : FolderEvent → Bool
  | opened _ => true
  | closed _ => false

/-- The call of which an event tells. -/
def call : FolderEvent → WorkspaceAct
  | opened root => .openFolder root
  | closed root => .closeFolder root

/-- The workspace is told of an event. -/
def tell : FolderEvent → SessionM Unit
  | opened root => Session.rootOpened root
  | closed root => Session.rootClosed root

/-- The events about a place. -/
def about (es : List FolderEvent) (place : Path) : List FolderEvent :=
  es.filter (·.root.samePlace place)

/-- Whether a place is open by the last event about it. Without an event it is as it was. -/
def lastSays (was : Bool) (es : List FolderEvent) (place : Path) : Bool :=
  ((about es place).getLast?.map isOpening).getD was

variable {e : FolderEvent} {es es' : List FolderEvent} {place : Path} {was : Bool}

theorem about_append (es es' : List FolderEvent) (place : Path) :
    about (es ++ es') place = about es place ++ about es' place :=
  List.filter_append _ _

theorem about_singleton_of_samePlace (h : e.root.samePlace place = true) : about [e] place = [e] :=
  List.filter_cons_of_pos h

theorem about_singleton_of_ne (h : e.root.samePlace place = false) : about [e] place = [] :=
  List.filter_cons_of_neg (by simp [h])

/-- The events about a place are those about it in any other spelling. -/
theorem about_congr {place' : Path} (h : place.key = place'.key) :
    about es place = about es place' :=
  List.filter_congr fun e _ => Path.samePlace_right h e.root

theorem lastSays_concat (was : Bool) (es : List FolderEvent) (e : FolderEvent) (place : Path) :
    lastSays was (es ++ [e]) place = if e.root.samePlace place then e.isOpening
      else lastSays was es place := by
  unfold lastSays
  rw [about_append]
  cases h : e.root.samePlace place with
  | true => simp [about_singleton_of_samePlace h]
  | false => simp [about_singleton_of_ne h]

/-- Of the same events in another order, the last ones say the same if and only if they are of one
sort. -/
theorem lastSays_eq_iff (h : es.Perm es') :
    lastSays was es place = lastSays was es' place ↔
      (about es place).getLast?.map isOpening = (about es' place).getLast?.map isOpening := by
  have hperm : (about es place).Perm (about es' place) := h.filter _
  unfold lastSays
  -- both lists have an event about the place or neither has, so the state before does not matter
  cases hlast : (about es place).getLast? with
  | none =>
      have hnil : about es' place = [] := (List.getLast?_eq_none_iff.1 hlast ▸ hperm).symm.eq_nil
      simp [hnil]
  | some e =>
      cases hlast' : (about es' place).getLast? with
      | none =>
          have hnil : about es place = [] := (List.getLast?_eq_none_iff.1 hlast' ▸ hperm).eq_nil
          simp [hnil] at hlast
      | some e' => simp

/-! ### Lists of places that go by events -/

/-- The second list has the place of the event if the event is an opening, and the other places of
the first. -/
def Applied (e : FolderEvent) (paths paths' : List Path) : Prop :=
  ∀ place, paths'.any (·.samePlace place) =
    if e.root.samePlace place then e.isOpening else paths.any (·.samePlace place)

theorem applied_opened_concat (root : Path) (paths : List Path) :
    Applied (.opened root) paths (paths ++ [root]) := by
  intro place
  change _ = if root.samePlace place = true then true else _
  rw [List.any_append, List.any_cons, List.any_nil, Bool.or_false, Bool.or_comm]
  by_cases h : root.samePlace place = true
  · rw [if_pos h, h, Bool.true_or]
  · rw [if_neg h, Bool.eq_false_iff.2 h, Bool.false_or]

theorem applied_closed_filter (root : Path) (paths : List Path) :
    Applied (.closed root) paths (paths.filter (!·.samePlace root)) := by
  intro place
  change _ = if root.samePlace place = true then false else _
  rw [List.any_filter]
  by_cases h : root.samePlace place = true
  · -- a path at the place is a path at the root, and those are taken out
    rw [if_pos h, List.any_eq_false]
    intro p _
    rw [Path.samePlace_right (Path.samePlace_iff.1 h), Bool.not_and_self]
    exact Bool.false_ne_true
  · rw [if_neg h]
    refine congrArg paths.any (funext fun p => ?_)
    cases hp : p.samePlace place with
    | false => rw [Bool.and_false]
    | true =>
        have hne : p.key ≠ root.key :=
          fun heq => h (Path.samePlace_iff.2 (heq.symm.trans (Path.samePlace_iff.1 hp)))
        rw [Path.samePlace_eq_false_iff.2 hne]
        rfl

/-- Nothing is to be done for an event that says what is so already. -/
theorem applied_self {paths : List Path} (h : paths.any (·.samePlace e.root) = e.isOpening) :
    Applied e paths paths := by
  intro place
  by_cases hplace : e.root.samePlace place = true
  · rw [if_pos hplace, ← h]
    exact congrArg paths.any (funext fun p =>
      (Path.samePlace_right (Path.samePlace_iff.1 hplace) p).symm)
  · rw [if_neg hplace]

/-- The paths are at the places that the last events say to be open. -/
def Settles (was : Path → Bool) (es : List FolderEvent) (paths : List Path) : Prop :=
  ∀ place, paths.any (·.samePlace place) = lastSays (was place) es place

theorem Settles.concat {was : Path → Bool} {paths paths' : List Path} (h : Settles was es paths)
    (hpaths : e.Applied paths paths') : Settles was (es ++ [e]) paths' := by
  intro place
  rw [hpaths place, h place, lastSays_concat]

end FolderEvent

/-! ### The two steps of a call -/

namespace Session

/-- The host notes that a folder was opened or closed, unless it was so before. -/
def note? (s : Session) : FolderEvent → Option Session
  | .opened root => (Folders.open? s.folders root).map fun folders =>
      { s with folders := folders, watcher := s.watcher.addNative root }
  | .closed root => (Folders.close? s.folders root).map fun folders =>
      { s with folders := folders, watcher := s.watcher.removeNative root }

/-- The workspace hears of a folder that was opened or closed, unless it has ended. -/
def hear (s : Session) (e : FolderEvent) : Session :=
  if s.workspace.attached then (e.tell.run s).2 else s

/-- A call is its two steps, one right after the other. -/
theorem act_call (s : Session) (e : FolderEvent) :
    s.act e.call = (s.note? e).elim s (·.hear e) := by
  cases e with
  | opened root =>
      have hact : s.act (.openFolder root) = ((openFolder root).run s).2 := rfl
      rw [openFolder, StateT.run_bind, StateT.run_get, pure_bind] at hact
      rw [FolderEvent.call, hact, note?]
      cases Folders.open? s.folders root with
      | none => rfl
      | some folders =>
          dsimp only [Option.map_some, Option.elim_some, hear]
          rw [StateT.run_bind]
          cases s.workspace.attached with
          | true => rfl
          | false => rfl
  | closed root =>
      have hact : s.act (.closeFolder root) = ((closeFolder root).run s).2 := rfl
      rw [closeFolder, StateT.run_bind, StateT.run_get, pure_bind] at hact
      rw [FolderEvent.call, hact, note?]
      cases Folders.close? s.folders root with
      | none => rfl
      | some folders =>
          dsimp only [Option.map_some, Option.elim_some, hear]
          rw [StateT.run_bind]
          cases s.workspace.attached with
          | true => rfl
          | false => rfl

/-- What is noted is so in the list of folders, and the workspace is as before. -/
theorem note?_spec {s s' : Session} {e : FolderEvent} (h : s.note? e = some s') :
    e.Applied s.folders s'.folders ∧ s'.workspace = s.workspace := by
  cases e with
  | opened root =>
      obtain ⟨folders, hopen, rfl⟩ := Option.map_eq_some_iff.1 h
      rw [Folders.open?] at hopen
      split at hopen
      · cases hopen
      · cases hopen
        exact ⟨FolderEvent.applied_opened_concat root s.folders, rfl⟩
  | closed root =>
      obtain ⟨folders, hclose, rfl⟩ := Option.map_eq_some_iff.1 h
      rw [Folders.close?] at hclose
      split at hclose
      · cases hclose
        exact ⟨FolderEvent.applied_closed_filter root s.folders, rfl⟩
      · cases hclose

/-- What is heard is so among the roots, and the folders are as before. -/
theorem hear_spec {s : Session} (hattached : s.workspace.attached = true) (e : FolderEvent) :
    e.Applied s.workspace.paths (s.hear e).workspace.paths ∧ (s.hear e).workspace.attached = true ∧
      (s.hear e).folders = s.folders := by
  have hhear : s.hear e = (e.tell.run s).2 := if_pos hattached
  rw [hhear]
  cases e with
  | opened root =>
      cases hmem : s.workspace.paths.any (·.samePlace root) with
      | true =>
          rw [FolderEvent.tell, rootOpened_of_mem s hmem]
          exact ⟨FolderEvent.applied_self hmem, hattached, rfl⟩
      | false =>
          obtain ⟨r, w, hrun, -, hroot, -⟩ := rootOpened_of_new s hmem
          rw [FolderEvent.tell, hrun]
          have hpaths : (s.workspace.roots ++ [r]).map (·.root) = s.workspace.paths ++ [root] := by
            rw [List.map_append, ← hroot]
            rfl
          refine ⟨?_, hattached, rfl⟩
          change FolderEvent.Applied _ s.workspace.paths ((s.workspace.roots ++ [r]).map (·.root))
          rw [hpaths]
          exact FolderEvent.applied_opened_concat root s.workspace.paths
  | closed root =>
      cases hmem : s.workspace.paths.any (·.samePlace root) with
      | false =>
          rw [FolderEvent.tell, rootClosed_of_notMem s hmem]
          exact ⟨FolderEvent.applied_self hmem, hattached, rfl⟩
      | true =>
          obtain ⟨retired, w, hrun, -⟩ := rootClosed_of_mem s hmem
          rw [FolderEvent.tell, hrun]
          have hpaths : (s.workspace.roots.filter (!·.root.samePlace root)).map (·.root) =
              s.workspace.paths.filter (!·.samePlace root) := by
            rw [Workspace.paths, List.filter_map, Function.comp_def]
          refine ⟨?_, hattached, rfl⟩
          change FolderEvent.Applied _ s.workspace.paths
            ((s.workspace.roots.filter (!·.root.samePlace root)).map (·.root))
          rw [hpaths]
          exact FolderEvent.applied_closed_filter root s.workspace.paths

/-- The workspace has a root at a place if and only if a folder is open there. -/
def RootsMatch (s : Session) : Prop :=
  ∀ place, s.workspace.paths.any (·.samePlace place) = s.folders.any (·.samePlace place)

end Session

/-! ### Events on their way -/

/-- A single step of some caller, or the end of the workspace. -/
inductive RelayAct where
  | note (e : FolderEvent)
  | deliver (position : Nat)
  | dispose
deriving DecidableEq

/-- A session with the events that are on their way, oldest first, and all events noted and heard so
far. -/
structure Relay where
  session : Session
  pending : List FolderEvent
  noted : List FolderEvent
  heard : List FolderEvent

namespace Relay

open FolderEvent

/-- Nothing is on its way. -/
def ofSession (s : Session) : Relay := ⟨s, [], [], []⟩

/-- A change that changes nothing sends no event, and an event that is not on its way does not
arrive. -/
def act (r : Relay) : RelayAct → Relay
  | .note e => (r.session.note? e).elim r fun s => ⟨s, r.pending ++ [e], r.noted ++ [e], r.heard⟩
  | .deliver i =>
    r.pending[i]?.elim r fun e => ⟨r.session.hear e, r.pending.eraseIdx i, r.noted, r.heard ++ [e]⟩
  | .dispose => { r with session := r.session.disposeWorkspace }

def acts (r : Relay) (as : List RelayAct) : Relay :=
  as.foldl act r

variable {r : Relay} {a : RelayAct} {as : List RelayAct} {s : Session}

/-- A call whose event arrives at once is the call of the session. -/
theorem note_deliver (r : Relay) (e : FolderEvent) :
    ((r.act (.note e)).act (.deliver r.pending.length)).session = r.session.act e.call := by
  rw [Session.act_call, act]
  cases r.session.note? e with
  | none => simp [act]
  | some s => simp [act]

/-! ### What every step keeps -/

/-- Since a session whose roots followed its folders, the folders go by the events noted and the
roots by the events heard, and an event that was noted is on its way or was heard. -/
structure Kept (s : Session) (r : Relay) : Prop where
  attached : r.session.workspace.attached = true
  folders : Settles (fun place => s.folders.any (·.samePlace place)) r.noted r.session.folders
  roots : Settles (fun place => s.folders.any (·.samePlace place)) r.heard r.session.workspace.paths
  perm : (r.pending ++ r.heard).Perm r.noted

theorem kept_ofSession (hs : s.FollowsFolders) : Kept s (ofSession s) :=
  ⟨hs.attached, fun _ => rfl, hs.any_paths, .nil⟩

theorem Kept.act (h : Kept s r) (ha : a ≠ .dispose) : Kept s (r.act a) := by
  cases a with
  | note e =>
      rw [Relay.act]
      cases hnote : r.session.note? e with
      | none => exact h
      | some s' =>
          obtain ⟨hfolders, hworkspace⟩ := Session.note?_spec hnote
          refine ⟨hworkspace ▸ h.attached, h.folders.concat hfolders, hworkspace ▸ h.roots, ?_⟩
          -- the event is noted last, and stands behind the others on their way
          have hmiddle : (r.pending ++ [e] ++ r.heard).Perm (r.pending ++ r.heard ++ [e]) := by
            rw [List.append_assoc, List.append_assoc]
            exact List.perm_append_comm.append_left r.pending
          exact hmiddle.trans (h.perm.append_right [e])
  | deliver i =>
      rw [Relay.act]
      cases hpending : r.pending[i]? with
      | none => exact h
      | some e =>
          obtain ⟨hroots, hattached, hfolders⟩ := Session.hear_spec h.attached e
          refine ⟨hattached, hfolders ▸ h.folders, h.roots.concat hroots, ?_⟩
          have hi : i < r.pending.length := (List.getElem?_eq_some_iff.1 hpending).1
          have he : r.pending[i] = e := (List.getElem?_eq_some_iff.1 hpending).2
          have hout : (e :: r.pending.eraseIdx i).Perm r.pending :=
            he ▸ List.getElem_cons_eraseIdx_perm hi
          calc r.pending.eraseIdx i ++ (r.heard ++ [e])
              _ = r.pending.eraseIdx i ++ r.heard ++ [e] := (List.append_assoc _ _ _).symm
              List.Perm _ (e :: (r.pending.eraseIdx i ++ r.heard)) := List.perm_append_singleton _ _
              List.Perm _ (r.pending ++ r.heard) := hout.append_right r.heard
              List.Perm _ r.noted := h.perm
  | dispose => exact absurd rfl ha

theorem Kept.acts (h : Kept s r) (has : RelayAct.dispose ∉ as) : Kept s (r.acts as) := by
  induction as generalizing r with
  | nil => exact h
  | cons a as ih =>
      rw [List.mem_cons, not_or] at has
      exact ih (h.act (Ne.symm has.1)) has.2

/-! ### Events in order -/

/-- Every act of a run meets a condition on the state in which it takes place. -/
def always (condition : Relay → RelayAct → Bool) (r : Relay) : List RelayAct → Bool
  | [] => true
  | a :: as => condition r a && (r.act a).always condition as

/-- An event that arrives is the oldest one about its place. -/
def oldestFirst (r : Relay) : RelayAct → Bool
  | .deliver i => r.pending[i]?.all fun e => about (r.pending.take i) e.root = []
  | _ => true

/-- A change is noted while no event about its place is on its way. -/
def startsAlone (r : Relay) : RelayAct → Bool
  | .note e => about r.pending e.root = []
  | _ => true

/-- The events noted about a place are those heard about it, and then those on their way. -/
def Queued (r : Relay) : Prop :=
  ∀ place, about r.noted place = about r.heard place ++ about r.pending place

theorem Queued.act (h : Queued r) (ha : r.oldestFirst a = true) : Queued (r.act a) := by
  cases a with
  | note e =>
      rw [Relay.act]
      cases r.session.note? e with
      | none => exact h
      | some s =>
          intro place
          simp only [Option.elim_some, about_append]
          rw [h place, List.append_assoc]
  | deliver i =>
      rw [Relay.act]
      cases hpending : r.pending[i]? with
      | none => exact h
      | some e =>
          intro place
          rw [oldestFirst, hpending, Option.all_some, decide_eq_true_eq] at ha
          obtain ⟨hi, he⟩ := List.getElem?_eq_some_iff.1 hpending
          have hsplit : about r.pending place =
              about (r.pending.take i) place ++ about [e] place ++
                about (r.pending.drop (i + 1)) place := by
            rw [← about_append, ← about_append, ← he, List.append_assoc, List.singleton_append,
              List.getElem_cons_drop, List.take_append_drop]
          -- the event changes places only with events about other places
          have hswap : about (r.pending.take i) place ++ about [e] place =
              about [e] place ++ about (r.pending.take i) place := by
            cases hplace : e.root.samePlace place with
            | false => rw [about_singleton_of_ne hplace, List.append_nil, List.nil_append]
            | true =>
                rw [← about_congr (Path.samePlace_iff.1 hplace), ha, List.append_nil,
                  List.nil_append]
          calc about r.noted place
              = about r.heard place ++ about r.pending place := h place
            _ = about r.heard place ++ (about [e] place ++ about (r.pending.take i) place ++
                  about (r.pending.drop (i + 1)) place) := by rw [hsplit, hswap]
            _ = about (r.heard ++ [e]) place ++ about (r.pending.eraseIdx i) place := by
                rw [List.eraseIdx_eq_take_drop_succ, about_append, about_append]
                simp only [List.append_assoc]
  | dispose => exact h

theorem Queued.acts (h : Queued r) (has : r.always oldestFirst as = true) : Queued (r.acts as) := by
  induction as generalizing r with
  | nil => exact h
  | cons a as ih =>
      rw [always, Bool.and_eq_true] at has
      exact ih (h.act has.1) has.2

/-- If calls about a place do not overlap, no two events about it are on their way. -/
theorem oldestFirst_of_startsAlone (hapart : r.pending.Pairwise fun e e' =>
    e.root.samePlace e'.root = false)
    (has : r.always startsAlone as = true) : r.always oldestFirst as = true := by
  -- along the run, the events on their way stay at different places
  induction as generalizing r with
  | nil => rfl
  | cons a as ih =>
      rw [always, Bool.and_eq_true] at has ⊢
      obtain ⟨ha, has⟩ := has
      cases a with
      | note e =>
          refine ⟨rfl, ih ?_ has⟩
          rw [act]
          cases r.session.note? e with
          | none => exact hapart
          | some s =>
              have halone : about r.pending e.root = [] := decide_eq_true_eq.mp ha
              refine List.pairwise_append.2 ⟨hapart, List.pairwise_singleton _ _, ?_⟩
              intro e' he' e'' he''
              obtain rfl : e'' = e := List.mem_singleton.1 he''
              exact Bool.eq_false_iff.2 (List.filter_eq_nil_iff.1 halone e' he')
      | deliver i =>
          cases hpending : r.pending[i]? with
          | none =>
              have hact : r.act (.deliver i) = r := by rw [act, hpending, Option.elim_none]
              rw [hact] at has ⊢
              exact ⟨by rw [oldestFirst, hpending]; rfl, ih hapart has⟩
          | some e =>
              have hrest : (r.act (.deliver i)).pending = r.pending.eraseIdx i := by
                rw [act, hpending, Option.elim_some]
              refine ⟨?_, ih (hrest ▸ hapart.sublist (List.eraseIdx_sublist _ _)) has⟩
              rw [oldestFirst, hpending, Option.all_some, decide_eq_true_eq]
              refine List.filter_eq_nil_iff.2 fun e' he' => ?_
              have hmem : e ∈ r.pending.drop i := by
                obtain ⟨hi, rfl⟩ := List.getElem?_eq_some_iff.1 hpending
                exact List.mem_drop_iff_getElem.2 ⟨0, by simpa using hi, by simp⟩
              rw [← List.take_append_drop i r.pending, List.pairwise_append] at hapart
              rw [hapart.2.2 e' he' e hmem]
              exact Bool.false_ne_true
      | dispose => exact ⟨rfl, ih hapart has⟩

/-! ### Folders and roots -/

/-- **Folders and roots of every interleaving.** Start from a session whose roots follow its
folders, and let any number of callers note their changes and have their events heard, in any order,
before the workspace ends. Then at every moment:
* a place is open if the last change noted about it is an opening, and has a root if the last event
  heard about it is one; without any it is as at the start;
* an event that was noted is on its way or was heard, once;
* a call whose event arrives at once is the call of the session;
* if nothing is on its way, the roots match the folders if and only if, for every place, the last
  event heard is of the sort of the last change noted;
* so they match if the events about each place were heard in order, and in particular if no two
  calls about one place overlapped. -/
theorem roots_go_by_last_events (s : Session) (hs : s.FollowsFolders) (as : List RelayAct)
    (has : RelayAct.dispose ∉ as) :
    let r := (ofSession s).acts as
    (∀ place,
      r.session.folders.any (·.samePlace place) =
        lastSays (s.folders.any (·.samePlace place)) r.noted place ∧
      r.session.workspace.paths.any (·.samePlace place) =
        lastSays (s.folders.any (·.samePlace place)) r.heard place) ∧
    (r.pending ++ r.heard).Perm r.noted ∧
    (∀ e, ((r.act (.note e)).act (.deliver r.pending.length)).session = r.session.act e.call) ∧
    (r.pending = [] →
      (r.session.RootsMatch ↔ ∀ place,
        (about r.heard place).getLast?.map isOpening =
          (about r.noted place).getLast?.map isOpening)) ∧
    (((ofSession s).always oldestFirst as = true ∨ (ofSession s).always startsAlone as = true) →
      r.pending = [] →
      r.session.RootsMatch) := by
  intro r
  have hr : Kept s r := (kept_ofSession hs).acts has
  have hmatch (hpending : r.pending = []) : r.session.RootsMatch ↔ ∀ place,
      (about r.heard place).getLast?.map isOpening =
        (about r.noted place).getLast?.map isOpening := by
    have hperm : r.heard.Perm r.noted := by simpa [hpending] using hr.perm
    refine forall_congr' fun place => ?_
    rw [hr.roots place, hr.folders place, lastSays_eq_iff hperm]
  refine ⟨fun place => ⟨hr.folders place, hr.roots place⟩, hr.perm, note_deliver r, hmatch, ?_⟩
  intro horder hpending
  have hfirst : (ofSession s).always oldestFirst as = true :=
    horder.elim id (oldestFirst_of_startsAlone .nil)
  have hqueued : Queued r := Queued.acts (fun _ => rfl) hfirst
  refine (hmatch hpending).2 fun place => ?_
  rw [hqueued place, hpending]
  simp [about]

/-- A folder is closed in a spelling of its own and opened again while the first event is on its
way, and an event about another folder overtakes both. -/
theorem roots_go_by_last_events_interleaved :
    let s : Session := .overFolders [⟨"/ws/a"⟩, ⟨"/ws/./a"⟩]
    let as : List RelayAct := [.note (.closed ⟨"/ws/x/../a"⟩), .note (.opened ⟨"/ws/b"⟩),
      .note (.opened ⟨"/ws/a"⟩), .deliver 1, .deliver 0, .deliver 0]
    let r := (ofSession s).acts as
    s.FollowsFolders ∧ RelayAct.dispose ∉ as ∧ (ofSession s).always oldestFirst as = true ∧
      r.pending = [] ∧
      r.session.folders = [⟨"/ws/b"⟩, ⟨"/ws/a"⟩] ∧ r.session.RootsMatch := by
  intro s as r
  have hs : s.FollowsFolders := Session.followsFolders_newWith _ _ _ _ _ _ _ _ _
  have has : RelayAct.dispose ∉ as := by decide
  have horder : (ofSession s).always oldestFirst as = true := by decide +kernel
  have hpending : r.pending = [] := by decide +kernel
  obtain ⟨-, -, -, -, hmatch⟩ := roots_go_by_last_events s hs as has
  exact ⟨hs, has, horder, hpending, by decide +kernel, hmatch (.inl horder) hpending⟩

/-- A folder is opened and closed, and the second event overtakes the first: the root stays. A
folder that is opened after the workspace has ended gets no root. In both cases nothing is on its
way at the end. -/
theorem overtaken_event_stays :
    let a : Path := ⟨"/ws/a"⟩
    let s : Session := .overFolders []
    let raced := (ofSession s).acts [.note (.opened a), .note (.closed a), .deliver 1, .deliver 0]
    let ended := (ofSession s).acts [.dispose, .note (.opened a), .deliver 0]
    s.FollowsFolders ∧
      raced.pending = [] ∧ raced.session.folders = [] ∧ raced.session.workspace.paths = [a] ∧
      ¬ raced.session.RootsMatch ∧
      ended.pending = [] ∧ ended.session.folders = [a] ∧ ended.session.workspace.paths = [] ∧
      ¬ ended.session.RootsMatch := by
  intro a s raced ended
  have hs : s.FollowsFolders := Session.followsFolders_newWith _ _ _ _ _ _ _ _ _
  have hraced : raced.session.folders = [] ∧ raced.session.workspace.paths = [a] := by
    decide +kernel
  have hended : ended.session.folders = [a] ∧ ended.session.workspace.paths = [] := by
    decide +kernel
  have hself : [a].any (·.samePlace a) = true := by simp [Path.samePlace]
  refine ⟨hs, by decide +kernel, hraced.1, hraced.2, ?_, by decide +kernel, hended.1, hended.2, ?_⟩
  · intro h
    have ha := h a
    rw [hraced.1, hraced.2, hself] at ha
    cases ha
  · intro h
    have ha := h a
    rw [hended.1, hended.2, hself] at ha
    cases ha

end Relay

end EnvDiscovery
