import EnvDiscovery.Proofs.Places
import EnvDiscovery.Proofs.Search
import EnvDiscovery.Proofs.WorkspaceRuns

/-!
**Watched folders of conda environments.**

Conda reports the folders that hold its environments. They are watched from two places: when the
first client subscribes, those of the last report, and while the source is watched, those of every
new report. Each folder is asked for once until the source is disposed of, whether or not it can be
watched at that moment. So the first answer decides: a folder that cannot be watched when it is
first asked for, say because it does not exist yet, has no watch later on, though it could be
watched by then.

Main definitions:
* `Watcher.opened` — the watches that are started for some targets;
* `SourceAct`, `Session.sourceActs` — what may happen to the sources of a session;
* `Session.folderWatches` — the watches of a folder, whatever its spelling;
* `Ledger`, `Session.ledger` — what a run tells of a folder: subscriptions, the last report and the
  first answer;
* `Session.WatchStep` — what an act does to the watches;
* `Session.Tidy`, `Session.Settled` — whose watches they are, and how many a folder has.

Main results:
* `Watcher.start_eq` — what starting watches gives;
* `WatchedLocator.filter_uncovered` — a folder is asked for once, in its first spelling;
* `Session.sourceAct_watchStep` — every act is a step;
* `Session.Tidy.step`, `Session.Settled.step`, `Session.Settled.run` — what a step and a run
  preserve;
* `Session.first_answer_decides_folder_watches` — **the first answer decides** along every run.
-/

namespace EnvDiscovery

/-! ### Starting and stopping watches -/

namespace Watcher

/-- The watches that are started for some targets, one for each that can be watched. -/
def opened (w : Watcher) (owner : WatchOwner) (ts : List WatchTarget) : List Watch :=
  ((ts.filter w.accepts).zipIdx w.next).map fun (t, n) => ⟨n, owner, t⟩

/-- The watcher with more watches. -/
def adding (w : Watcher) (more : List Watch) : Watcher :=
  { w with next := w.next + more.length, active := w.active ++ more }

theorem start_eq (w : Watcher) (owner : WatchOwner) (ts : List WatchTarget) :
    w.start owner ts = (w.adding (w.opened owner ts), (w.opened owner ts).map (·.handle)) := by
  induction ts generalizing w with
  | nil => simp [start, opened, adding]
  | cons t ts ih =>
      cases ht : w.accepts t with
      | false =>
          have hone : w.startOne owner t = (w, []) := by simp [startOne, ht]
          have hopened : w.opened owner (t :: ts) = w.opened owner ts := by simp [opened, ht]
          rw [start, hone, hopened]
          dsimp only
          rw [ih]
          rfl
      | true =>
          -- the rest is started by a watcher that accepts the same targets
          let more := w.adding [⟨w.next, owner, t⟩]
          have hone : w.startOne owner t = (more, [w.next]) := by simp [startOne, ht, more, adding]
          have hopened : w.opened owner (t :: ts) = ⟨w.next, owner, t⟩ :: more.opened owner ts := by
            have hsame : more.accepts = w.accepts := rfl
            have hnext : more.next = w.next + 1 := rfl
            simp [opened, ht, hsame, hnext]
          rw [start, hone, hopened]
          dsimp only
          rw [ih more]
          simp [more, adding, Nat.add_assoc, Nat.add_comm 1]

theorem mem_opened {w : Watcher} {owner : WatchOwner} {ts : List WatchTarget} {x : Watch}
    (h : x ∈ w.opened owner ts) :
    x.owner = owner ∧ w.next ≤ x.handle ∧ x.handle < w.next + (w.opened owner ts).length := by
  obtain ⟨⟨t, n⟩, htn, rfl⟩ := List.mem_map.1 h
  obtain ⟨hle, hlt, -⟩ := List.mem_zipIdx htn
  have hlength : (w.opened owner ts).length = (ts.filter w.accepts).length := by simp [opened]
  exact ⟨rfl, hle, by rw [hlength]; omega⟩

theorem map_target_opened (w : Watcher) (owner : WatchOwner) (ts : List WatchTarget) :
    (w.opened owner ts).map (·.target) = ts.filter w.accepts := by
  simp [opened, Function.comp_def, List.zipIdx_map_fst]

end Watcher

/-! ### Folders that are asked for -/

namespace WatchedLocator

/-- A folder is asked for once, in the first spelling, unless its place is covered already. -/
theorem filter_uncovered (covered dirs : List Path) (dir : Path) :
    (uncovered covered dirs).filter (·.samePlace dir) =
      if covered.any (·.samePlace dir) then [] else (dirs.find? (·.samePlace dir)).toList := by
  induction dirs generalizing covered with
  | nil => simp [uncovered]
  | cons d dirs ih =>
      rw [uncovered]
      cases hd : d.samePlace dir with
      | true =>
          have hkey := Path.samePlace_iff.1 hd
          have hsame : covered.any (·.samePlace d) = covered.any (·.samePlace dir) :=
            congrArg covered.any (funext (Path.samePlace_right hkey))
          rw [hsame]
          split
          · rw [ih, if_pos ‹_›]
          · rw [List.filter_cons_of_pos (by exact hd), ih, if_pos (by simp [hd]),
              List.find?_cons_of_pos (by exact hd)]
            rfl
      | false =>
          rw [List.find?_cons_of_neg (by simp [hd])]
          split
          · exact ih covered
          · rw [List.filter_cons_of_neg (by simp [hd]), ih]
            simp [hd]

theorem any_covered (covered dirs : List Path) (dir : Path) :
    (covered ++ uncovered covered dirs).any (·.samePlace dir) =
      (covered.any (·.samePlace dir) || (dirs.find? (·.samePlace dir)).isSome) := by
  have hnew : (uncovered covered dirs).any (·.samePlace dir) =
      !((uncovered covered dirs).filter (·.samePlace dir)).isEmpty := by
    rw [Bool.eq_iff_iff]
    simp
  rw [List.any_append, hnew, filter_uncovered]
  cases covered.any (·.samePlace dir) <;> cases dirs.find? (·.samePlace dir) <;> rfl

end WatchedLocator

/-! ### What a source has of its watches -/

/-- The part of a source that its watches depend on, without its listeners. -/
structure WatchState where
  locator : Locator
  handles : Option (List Nat)
  reported : List Path
  covered : List Path

def WatchedLocator.watchState (x : WatchedLocator) : WatchState :=
  ⟨x.locator, x.notifier.handles, x.reported, x.covered⟩

namespace WatchedLocator

variable {x : WatchedLocator}

/-- One more listener starts no watches. -/
theorem subscribe_of_watching (hreports : x.locator.reportsChanges = true)
    (hwatching : x.notifier.isWatching = true) (host : Host) (w : Watcher) (owner : WatchOwner)
    (h : Hearer) :
    ∃ x' n, x.subscribe host w owner h = some (x', w, n) ∧ x'.watchState = x.watchState := by
  rw [subscribe, if_neg (by simp [hreports]), if_pos hwatching]
  obtain ⟨handles, hhandles⟩ := Option.isSome_iff_exists.1 hwatching
  exact ⟨_, _, rfl, by simp [watchState, hhandles]⟩

/-- The first listener starts the watches of the source and of the folders that it knows of. -/
theorem subscribe_of_resting (hreports : x.locator.reportsChanges = true)
    (hwatching : x.notifier.isWatching = false) (host : Host) (w : Watcher) (owner : WatchOwner)
    (h : Hearer) {dirs : List Path} (hdirs : dirs = uncovered x.covered x.reported)
    {new : List Watch}
    (hnew : new = w.opened owner (x.locator.watchTargets host ++ folderTargets dirs)) :
    ∃ x' n, x.subscribe host w owner h = some (x', w.adding new, n) ∧
      x'.watchState = ⟨x.locator, some (new.map (·.handle)), x.reported, x.covered ++ dirs⟩ := by
  subst hdirs hnew
  have hhandles : x.notifier.handles = none := by simpa [Notifier.isWatching] using hwatching
  rw [subscribe, if_neg (by simp [hreports]), if_neg (by simp [hwatching])]
  dsimp only
  rw [Watcher.start_eq]
  exact ⟨_, _, rfl, by simp [watchState, Notifier.subscribe, hhandles]⟩

/-- A report starts no watches unless some run already. -/
theorem noteReport_of_resting (hwatching : x.notifier.isWatching = false) (w : Watcher)
    (owner : WatchOwner) (i : CondaInfo) :
    (x.noteReport w owner i).2 = w ∧
      (x.noteReport w owner i).1.watchState = { x.watchState with reported := i.envsDirs } := by
  rw [noteReport, if_neg (by simp [hwatching])]
  exact ⟨rfl, rfl⟩

/-- A report starts the watches of its folders that were not asked for yet. -/
theorem noteReport_of_watching (hwatching : x.notifier.isWatching = true) (w : Watcher)
    (owner : WatchOwner) (i : CondaInfo) {dirs : List Path}
    (hdirs : dirs = uncovered x.covered i.envsDirs) {new : List Watch}
    (hnew : new = w.opened owner (folderTargets dirs)) :
    (x.noteReport w owner i).2 = w.adding new ∧
      (x.noteReport w owner i).1.watchState =
        ⟨x.locator, some (x.notifier.handles.getD [] ++ new.map (·.handle)), i.envsDirs,
          x.covered ++ dirs⟩ := by
  subst hdirs hnew
  obtain ⟨handles, hhandles⟩ := Option.isSome_iff_exists.1 hwatching
  rw [noteReport, if_pos hwatching]
  dsimp only
  rw [Watcher.start_eq]
  exact ⟨rfl, by simp [watchState, Notifier.extend, hhandles]⟩

end WatchedLocator

/-! ### Acts -/

/-- What may happen to the sources of a session: a client subscribes to a source or leaves, a source
is listed or disposed of, or the machine changes, and with it the directories that cannot be
watched. -/
inductive SourceAct where
  | subscribe (client : String) (position : Nat)
  | unsubscribe (client : String)
  | enumerate (position : Nat)
  | dispose (position : Nat)
  | change (machine : Machine) (refused : List Path)

/-- Whether a target is all that a folder of environments contains. -/
def WatchTarget.isFolder (t : WatchTarget) (dir : Path) : Bool :=
  t.pattern == "*" && t.dir.samePlace dir

namespace Session

/-- The session after an act. -/
def sourceAct (s : Session) : SourceAct → Session
  | .subscribe client position => ((subscribe client (.source position)).run s).2
  | .unsubscribe client => ((unsubscribe client).run s).2
  | .enumerate position => ((listSource position).run s).2
  | .dispose position => s.disposeSource position
  | .change machine refused =>
    { s with machine := machine, watcher := { s.watcher with refused := refused } }

/-- The session after some acts. -/
def sourceActs (s : Session) (as : List SourceAct) : Session :=
  as.foldl sourceAct s

theorem sourceActs_concat (s : Session) (as : List SourceAct) (a : SourceAct) :
    s.sourceActs (as ++ [a]) = (s.sourceActs as).sourceAct a := by
  rw [sourceActs, List.foldl_append]
  rfl

/-- What the sources have of their watches. -/
def watchStates (s : Session) : List WatchState :=
  s.sources.map (·.watchState)

theorem watchStates_getElem? {s : Session} {q : Nat} {x : WatchedLocator}
    (hx : s.sources[q]? = some x) :
    s.watchStates[q]? = some x.watchState := by
  rw [watchStates, List.getElem?_map, hx]
  rfl

theorem set_watchState_self {s : Session} {q : Nat} {x : WatchedLocator}
    (hx : s.sources[q]? = some x) :
    s.watchStates.set q x.watchState = s.watchStates := by
  obtain ⟨hlt, rfl⟩ := List.getElem?_eq_some_iff.1 hx
  rw [watchStates, ← List.map_set, List.set_getElem_self]

/-- The watches of a folder that a source keeps, whatever the spelling. -/
def folderWatches (s : Session) (p : Nat) (dir : Path) : List Watch :=
  s.watcher.active.filter fun x => x.owner == .machine p && x.target.isFolder dir

end Session

/-- What a run tells of a folder of conda: whether a client subscribed to the source since the
source was last disposed of, the folders of the last report, and whether the folder could be watched
when it was first asked for since the source was last disposed of. -/
structure Ledger where
  subscribed : Bool
  reported : List Path
  answer : Option Bool

namespace Ledger

/-- Nothing has happened. -/
def empty : Ledger := ⟨false, [], none⟩

/-- All folders of the last report are asked for. -/
def ask (l : Ledger) (w : Watcher) (dir : Path) : Ledger :=
  { l with
    answer := l.answer <|>
      (l.reported.find? (·.samePlace dir)).map fun d => w.accepts (Locator.condaTarget d "*") }

end Ledger

namespace Session

/-- What an act adds to what is told of a folder of the source at a position. -/
def note (s : Session) (p : Nat) (dir : Path) (l : Ledger) : SourceAct → Ledger
  | .subscribe _ q =>
    if q = p ∧ l.subscribed = false then
      Ledger.ask { l with subscribed := true } s.watcher dir
    else l
  | .enumerate q =>
    match (s.report p).report with
    | some i =>
      if q = p then
        let l := { l with reported := i.envsDirs }
        if l.subscribed then l.ask s.watcher dir else l
      else l
    | none => l
  | .dispose q => if q = p then { l with subscribed := false, answer := none } else l
  | .unsubscribe _ | .change _ _ => l

/-- What a run tells of a folder of the source at a position. -/
def ledger (s : Session) (p : Nat) (dir : Path) (as : List SourceAct) : Ledger :=
  (as.foldl (fun (t, l) a => (t.sourceAct a, t.note p dir l a)) (s, .empty)).2

end Session

namespace Session

/-! ### What one act does -/

theorem withdrawn_watchStates (s : Session) (client : String) :
    (s.withdrawn client).watchStates = s.watchStates := by
  rw [withdrawn]
  cases s.clients.lookup client with
  | none => rfl
  | some r =>
      obtain ⟨post, number⟩ := r
      cases post with
      | source position =>
          refine List.ext_getElem? fun i => ?_
          simp only [watchStates, Option.elim_some, withdraw, List.getElem?_map,
            List.getElem?_modify]
          cases s.sources[i]? with
          | none => rfl
          | some x =>
              simp only [Option.map_eq_map, Option.map_some]
              split <;> rfl
      | workspace => rfl
      | joined => rfl

theorem subscribe_of_none {s : Session} {client : String} {q : Nat}
    (h : s.sources[q]?.bind (·.subscribe s.machine.host s.watcher (.machine q) (.client client)) =
      none) :
    s.sourceAct (.subscribe client q) = s := by
  have hregister : (register (.source q) (.client client)).run s = (none, s) := by
    rw [register, StateT.run_bind, StateT.run_get, pure_bind]
    dsimp only
    rw [h]
    rfl
  rw [sourceAct, subscribe, StateT.run_bind, hregister]
  · rfl
  · exact fun h => by cases h

theorem subscribe_of_some {s : Session} {client : String} {q : Nat} {x : WatchedLocator}
    {w : Watcher} {n : Nat}
    (h : s.sources[q]?.bind (·.subscribe s.machine.host s.watcher (.machine q) (.client client)) =
      some (x, w, n)) :
    (s.sourceAct (.subscribe client q)).watcher = w ∧
      (s.sourceAct (.subscribe client q)).watchStates = s.watchStates.set q x.watchState := by
  let t : Session := { s with sources := s.sources.set q x, watcher := w }
  have hregister : (register (.source q) (.client client)).run s = (some ⟨.source q, n⟩, t) := by
    rw [register, StateT.run_bind, StateT.run_get, pure_bind]
    dsimp only
    rw [h]
    rfl
  have hrun : s.sourceAct (.subscribe client q) =
      let u := ((unsubscribe client).run t).2
      { u with clients := u.clients ++ [(client, ⟨.source q, n⟩)] } := by
    rw [sourceAct, subscribe, StateT.run_bind, hregister]
    · rfl
    · exact fun h => by cases h
  rw [hrun, unsubscribe_run]
  refine ⟨(t.withdrawn_frame client).2.1, (t.withdrawn_watchStates client).trans ?_⟩
  exact List.map_set

theorem enumerate_of_none {s : Session} {q : Nat} (hx : s.sources[q]? = none) :
    s.sourceAct (.enumerate q) = s := by
  rw [sourceAct, listSource_run_of_none hx]

theorem enumerate_of_some {s : Session} {q : Nat} {x : WatchedLocator}
    (hx : s.sources[q]? = some x) :
    (s.sourceAct (.enumerate q)).watcher = (s.noted q x).2 ∧
      (s.sourceAct (.enumerate q)).watchStates =
        s.watchStates.set q (s.noted q x).1.watchState := by
  rw [sourceAct, listSource_run_of_some hx]
  exact ⟨rfl, List.map_set⟩

/-- An act that neither starts nor stops watches of a source that reports changes, nor tells it of
new folders. -/
structure Idle (s : Session) (a : SourceAct) (p : Nat) (st : WatchState) : Prop where
  watched : ∀ client, a = .subscribe client p → st.handles.isSome = true
  silent : a = .enumerate p → (s.report p).report = none
  kept : a ≠ .dispose p

/-- An act by which a source asks for folders and opens watches: the first subscription, for the
folders of the last report, or a new report while the source is watched. The first subscription also
asks for what the source always watches. -/
structure Starts (s : Session) (a : SourceAct) (q : Nat) (st : WatchState) (asked : List Path)
    (new : List Watch) (s' : Session) : Prop where
  state : s.watchStates[q]? = some st
  cause : (∃ client, a = .subscribe client q) ∧ st.handles = none ∧ asked = st.reported ∨
    a = .enumerate q ∧ st.handles.isSome = true ∧ ∃ i, (s.report q).report = some i ∧
      asked = i.envsDirs
  opened : ∃ own, (∀ t ∈ own, t ∈ st.locator.watchTargets s.machine.host) ∧
    new = s.watcher.opened (.machine q)
      (own ++ WatchedLocator.folderTargets (WatchedLocator.uncovered st.covered asked))
  watcher : s'.watcher = s.watcher.adding new
  states : s'.watchStates = s.watchStates.set q
    ⟨st.locator, some (st.handles.getD [] ++ new.map (·.handle)), asked,
      st.covered ++ WatchedLocator.uncovered st.covered asked⟩

/-- What an act does to the watches. -/
inductive WatchStep (s : Session) : SourceAct → Session → Prop where
  /-- Nothing happens to the sources that report changes. -/
  | still {a : SourceAct} {s' : Session} (hactive : s'.watcher.active = s.watcher.active)
      (hnext : s'.watcher.next = s.watcher.next) (hstates : s'.watchStates = s.watchStates)
      (hidle : ∀ p st, s.watchStates[p]? = some st → st.locator.reportsChanges = true →
        s.Idle a p st) :
      WatchStep s a s'
  /-- A report comes while the source is not watched. -/
  | noted {s' : Session} {q : Nat} {st : WatchState} {i : CondaInfo}
      (hst : s.watchStates[q]? = some st)
      (hresting : st.handles = none) (hi : (s.report q).report = some i)
      (hw : s'.watcher = s.watcher)
      (hstates : s'.watchStates = s.watchStates.set q { st with reported := i.envsDirs }) :
      WatchStep s (.enumerate q) s'
  /-- A source asks for folders. -/
  | started {a : SourceAct} {s' : Session} {q : Nat} {st : WatchState} {asked : List Path}
      {new : List Watch}
      (h : s.Starts a q st asked new s') : WatchStep s a s'
  /-- A source stops its watches. -/
  | disposed {s' : Session} {q : Nat} {st : WatchState} (hst : s.watchStates[q]? = some st)
      (hw : s'.watcher = s.watcher.stop (st.handles.getD []))
      (hstates : s'.watchStates = s.watchStates.set q ⟨st.locator, none, st.reported, []⟩) :
      WatchStep s (.dispose q) s'

theorem source_of_watchState {s : Session} {p : Nat} {st : WatchState}
    (h : s.watchStates[p]? = some st) :
    ∃ x, s.sources[p]? = some x ∧ x.watchState = st := by
  rw [watchStates, List.getElem?_map] at h
  exact Option.map_eq_some_iff.1 h

/-- An act on one source leaves the others alone. -/
theorem idle_of_ne {s : Session} {a : SourceAct} {p : Nat} {st : WatchState}
    (hsub : ∀ c, a ≠ .subscribe c p) (hlist : a ≠ .enumerate p) (hdispose : a ≠ .dispose p) :
    s.Idle a p st :=
  ⟨fun c h => absurd h (hsub c), fun h => absurd h hlist, hdispose⟩

/-- An act that leaves the watches and the source at its position as they were is still, if that
source has no part in it. -/
theorem still_of_position {s s' : Session} {a : SourceAct} {q : Nat} (hw : s'.watcher = s.watcher)
    (hstates : s'.watchStates = s.watchStates) (hothers : ∀ p st, p ≠ q → s.Idle a p st)
    (hself : ∀ x, s.sources[q]? = some x → x.locator.reportsChanges = true →
      s.Idle a q x.watchState) :
    s.WatchStep a s' := by
  refine .still (by rw [hw]) (by rw [hw]) hstates fun p st hst hreports => ?_
  by_cases hp : p = q
  · subst hp
    obtain ⟨x, hx, rfl⟩ := source_of_watchState hst
    exact hself x hx hreports
  · exact hothers p st hp

theorem subscribe_watchStep (s : Session) (client : String) (q : Nat) :
    s.WatchStep (.subscribe client q) (s.sourceAct (.subscribe client q)) := by
  have hothers : ∀ p st, p ≠ q → s.Idle (.subscribe client q) p st := fun p st hne =>
    idle_of_ne (by simp [Ne.symm hne]) (by simp) (by simp)
  cases hx : s.sources[q]? with
  | none =>
      rw [subscribe_of_none (by rw [hx]; rfl)]
      refine still_of_position rfl rfl hothers fun x hx' _ => ?_
      rw [hx] at hx'
      cases hx'
  | some x =>
      cases hreports : x.locator.reportsChanges with
      | false =>
          have hnone :=
            WatchedLocator.subscribe_of_silent hreports s.machine.host s.watcher (.machine q)
            (.client client)
          rw [subscribe_of_none (by rw [hx]; exact hnone)]
          refine still_of_position rfl rfl hothers fun y hy hyes => ?_
          obtain rfl : x = y := Option.some.inj (hx.symm.trans hy)
          exact absurd (hreports.symm.trans hyes) (by decide)
      | true =>
          cases hhandles : x.notifier.handles with
          | some handles =>
              have hwatching : x.notifier.isWatching = true := by
                rw [Notifier.isWatching, hhandles]; rfl
              obtain ⟨x', n, hsub, hsame⟩ := WatchedLocator.subscribe_of_watching hreports hwatching
                s.machine.host s.watcher (.machine q) (.client client)
              obtain ⟨hw, hstates⟩ := subscribe_of_some (by rw [hx]; exact hsub)
              rw [hsame, set_watchState_self hx] at hstates
              refine still_of_position hw hstates hothers fun y hy _ => ?_
              obtain rfl : x = y := Option.some.inj (hx.symm.trans hy)
              exact ⟨fun _ _ => hwatching, by simp, by simp⟩
          | none =>
              have hwatching : x.notifier.isWatching = false := by
                rw [Notifier.isWatching, hhandles]; rfl
              obtain ⟨x', n, hsub, hx'⟩ := WatchedLocator.subscribe_of_resting hreports hwatching
                s.machine.host s.watcher (.machine q) (.client client) rfl rfl
              obtain ⟨hw, hstates⟩ := subscribe_of_some (by rw [hx]; exact hsub)
              have hgetD : x.watchState.handles.getD [] = [] := congrArg (·.getD []) hhandles
              refine .started ⟨watchStates_getElem? hx, .inl ⟨⟨client, rfl⟩, hhandles, rfl⟩,
                ⟨_, fun t ht => ht, rfl⟩, hw, ?_⟩
              rw [hstates, hx', hgetD, List.nil_append]
              rfl

theorem enumerate_watchStep (s : Session) (q : Nat) :
    s.WatchStep (.enumerate q) (s.sourceAct (.enumerate q)) := by
  have hothers : ∀ p st, p ≠ q → s.Idle (.enumerate q) p st := fun p st hne =>
    idle_of_ne (by simp) (by simp [Ne.symm hne]) (by simp)
  cases hx : s.sources[q]? with
  | none =>
      rw [enumerate_of_none hx]
      refine still_of_position rfl rfl hothers fun x hx' _ => ?_
      rw [hx] at hx'
      cases hx'
  | some x =>
      obtain ⟨hw, hstates⟩ := enumerate_of_some hx
      rw [noted] at hw hstates
      cases hi : (s.report q).report with
      | none =>
          rw [hi] at hw hstates
          exact still_of_position hw (hstates.trans (set_watchState_self hx)) hothers fun _ _ _ =>
            ⟨by simp, fun _ => hi, by simp⟩
      | some i =>
          rw [hi, Option.elim_some] at hw hstates
          cases hhandles : x.notifier.handles with
          | none =>
              have hwatching : x.notifier.isWatching = false := by
                rw [Notifier.isWatching, hhandles]; rfl
              obtain ⟨hw', hx'⟩ :=
                WatchedLocator.noteReport_of_resting hwatching s.watcher (.machine q) i
              exact .noted (watchStates_getElem? hx) hhandles hi (hw.trans hw') (hx' ▸ hstates)
          | some handles =>
              have hwatching : x.notifier.isWatching = true := by
                rw [Notifier.isWatching, hhandles]; rfl
              obtain ⟨hw', hx'⟩ :=
                WatchedLocator.noteReport_of_watching hwatching s.watcher (.machine q) i
                rfl rfl
              exact .started ⟨watchStates_getElem? hx, .inr ⟨rfl, hwatching, i, hi, rfl⟩,
                ⟨[], by simp, rfl⟩, hw.trans hw', hx' ▸ hstates⟩

theorem dispose_watchStep (s : Session) (q : Nat) :
    s.WatchStep (.dispose q) (s.sourceAct (.dispose q)) := by
  have hothers : ∀ p st, p ≠ q → s.Idle (.dispose q) p st := fun p st hne =>
    idle_of_ne (by simp) (by simp) (by simp [Ne.symm hne])
  rw [sourceAct, disposeSource]
  cases hx : s.sources[q]? with
  | none =>
      refine still_of_position rfl rfl hothers fun x hx' _ => ?_
      rw [hx] at hx'
      cases hx'
  | some x => exact .disposed (watchStates_getElem? hx) rfl List.map_set

/-- **Every act is a step.** -/
theorem sourceAct_watchStep (s : Session) (a : SourceAct) : s.WatchStep a (s.sourceAct a) := by
  cases a with
  | subscribe client q => exact s.subscribe_watchStep client q
  | enumerate q => exact s.enumerate_watchStep q
  | dispose q => exact s.dispose_watchStep q
  | change machine refused =>
      exact .still rfl rfl rfl fun p st _ _ => idle_of_ne (by simp) (by simp) (by simp)
  | unsubscribe client =>
      have hrun : s.sourceAct (.unsubscribe client) = _ := s.unsubscribe_run client
      have hw := (s.withdrawn_frame client).2.1
      have hstates := s.withdrawn_watchStates client
      rw [hrun]
      exact .still (congrArg (·.active) hw) (congrArg (·.next) hw) hstates fun p st _ _ =>
        idle_of_ne (by simp) (by simp) (by simp)

/-! ### Whose watches they are -/

/-- No handle is given twice, and a source holds the handles of its own watches. -/
structure Tidy (s : Session) : Prop where
  fresh : ∀ x ∈ s.watcher.active, x.handle < s.watcher.next
  held : ∀ (q : Nat) (st : WatchState), s.watchStates[q]? = some st →
    ∀ n ∈ st.handles.getD [], n < s.watcher.next
  owned : ∀ x ∈ s.watcher.active, ∀ (q : Nat) (st : WatchState), s.watchStates[q]? = some st →
    (x.handle ∈ st.handles.getD [] ↔ x.owner = .machine q)

variable {s s' : Session} {a : SourceAct} {p q : Nat} {st : WatchState}

/-- An act on one source gives it a new state and leaves those of the others. -/
theorem watchState_set_cases {st' : WatchState} (hstates : s'.watchStates = s.watchStates.set q st')
    (h : s'.watchStates[p]? = some st) :
    (p = q ∧ st = st') ∨ (p ≠ q ∧ s.watchStates[p]? = some st) := by
  rw [hstates, List.getElem?_set] at h
  split at h
  · rename_i hq
    refine .inl ⟨hq.symm, ?_⟩
    split at h
    · exact (Option.some.inj h).symm
    · cases h
  · exact .inr ⟨Ne.symm ‹_›, h⟩

theorem watchState_set {st' : WatchState} (hst : s.watchStates[q]? = some st)
    (hstates : s'.watchStates = s.watchStates.set q st') : s'.watchStates[q]? = some st' := by
  rw [hstates, List.getElem?_set_self (List.getElem?_eq_some_iff.1 hst).1]

theorem Starts.mem_new {asked : List Path} {new : List Watch} (h : s.Starts a q st asked new s')
    {x : Watch} (hx : x ∈ new) :
    x.owner = .machine q ∧ s.watcher.next ≤ x.handle ∧ x.handle < s.watcher.next + new.length := by
  obtain ⟨own, -, rfl⟩ := h.opened
  exact Watcher.mem_opened hx

/-- A watch that goes on when a source stops its watches is of another source. -/
theorem Tidy.owner_ne_of_stop (htidy : s.Tidy) (hst : s.watchStates[q]? = some st) {x : Watch}
    (hx : x ∈ (s.watcher.stop (st.handles.getD [])).active) :
    x ∈ s.watcher.active ∧ x.owner ≠ .machine q := by
  obtain ⟨hx, hkept⟩ := List.mem_filter.1 hx
  refine ⟨hx, ?_⟩
  rw [Ne, ← htidy.owned x hx q st hst]
  simpa using hkept

theorem Tidy.started (htidy : s.Tidy) {asked : List Path} {new : List Watch}
    (h : s.Starts a q st asked new s') : s'.Tidy := by
  have hactive : s'.watcher.active = s.watcher.active ++ new := congrArg (·.active) h.watcher
  have hnext : s'.watcher.next = s.watcher.next + new.length := congrArg (·.next) h.watcher
  refine ⟨?_, ?_, ?_⟩
  · intro x hx
    rw [hactive, List.mem_append] at hx
    rw [hnext]
    rcases hx with hx | hx
    · exact Nat.lt_add_right _ (htidy.fresh x hx)
    · exact (h.mem_new hx).2.2
  · intro p st' hst' n hn
    rw [hnext]
    rcases watchState_set_cases h.states hst' with ⟨rfl, rfl⟩ | ⟨-, hst'⟩
    · rcases List.mem_append.1 hn with hn | hn
      · exact Nat.lt_add_right _ (htidy.held p st h.state n hn)
      · obtain ⟨x, hx, rfl⟩ := List.mem_map.1 hn
        exact (h.mem_new hx).2.2
    · exact Nat.lt_add_right _ (htidy.held p st' hst' n hn)
  · intro x hx p st' hst'
    rw [hactive, List.mem_append] at hx
    rcases hx with hx | hx
    · rcases watchState_set_cases h.states hst' with ⟨rfl, rfl⟩ | ⟨-, hst'⟩
      · -- the handle of an old watch is below the new ones
        have hnotnew : x.handle ∉ new.map (·.handle) := by
          intro hmem
          obtain ⟨y, hy, heq⟩ := List.mem_map.1 hmem
          have hlt := htidy.fresh x hx
          have hle := (h.mem_new hy).2.1
          omega
        rw [Option.getD_some, List.mem_append, or_iff_left hnotnew]
        exact htidy.owned x hx p st h.state
      · exact htidy.owned x hx p st' hst'
    · obtain ⟨howner, hle, -⟩ := h.mem_new hx
      rcases watchState_set_cases h.states hst' with ⟨rfl, rfl⟩ | ⟨hne, hst'⟩
      · rw [Option.getD_some, List.mem_append]
        exact iff_of_true (.inr (List.mem_map_of_mem hx)) howner
      · refine iff_of_false (fun hmem => ?_) ?_
        · have hlt := htidy.held p st' hst' _ hmem
          omega
        · simpa [howner] using Ne.symm hne

theorem Tidy.step (htidy : s.Tidy) (hstep : s.WatchStep a s') : s'.Tidy := by
  cases hstep with
  | still hactive hnext hstates _ =>
      refine ⟨?_, ?_, ?_⟩
      · rw [hactive, hnext]
        exact htidy.fresh
      · rw [hstates, hnext]
        exact htidy.held
      · rw [hactive, hstates]
        exact htidy.owned
  | @noted _ q st i hst hresting hi hw hstates =>
      refine ⟨hw ▸ htidy.fresh, fun p st' hst' => ?_, fun x hx p st' hst' => ?_⟩
      · rw [hw]
        rcases watchState_set_cases hstates hst' with ⟨rfl, rfl⟩ | ⟨-, hst'⟩
        · exact htidy.held p st hst
        · exact htidy.held p st' hst'
      · rw [hw] at hx
        rcases watchState_set_cases hstates hst' with ⟨rfl, rfl⟩ | ⟨-, hst'⟩
        · exact htidy.owned x hx p st hst
        · exact htidy.owned x hx p st' hst'
  | started h => exact htidy.started h
  | @disposed _ q st hst hw hstates =>
      refine ⟨fun x hx => ?_, fun p st' hst' n hn => ?_, fun x hx p st' hst' => ?_⟩
      · rw [hw] at hx ⊢
        exact htidy.fresh x (htidy.owner_ne_of_stop hst hx).1
      · rw [hw]
        rcases watchState_set_cases hstates hst' with ⟨rfl, rfl⟩ | ⟨-, hst'⟩
        · cases hn
        · exact htidy.held p st' hst' n hn
      · rw [hw] at hx
        obtain ⟨hx, hne⟩ := htidy.owner_ne_of_stop hst hx
        rcases watchState_set_cases hstates hst' with ⟨rfl, rfl⟩ | ⟨-, hst'⟩
        · exact iff_of_false List.not_mem_nil hne
        · exact htidy.owned x hx p st' hst'

/-- A source that is disposed of keeps no watches. -/
theorem Tidy.owner_ne_of_dispose (htidy : s.Tidy) (hst : s.watchStates[p]? = some st) :
    ∀ x ∈ (s.sourceAct (.dispose p)).watcher.active, x.owner ≠ .machine p := by
  obtain ⟨y, hy, rfl⟩ := source_of_watchState hst
  have hw : (s.sourceAct (.dispose p)).watcher = s.watcher.stop (y.watchState.handles.getD []) := by
    rw [sourceAct, disposeSource, hy]
    rfl
  intro x hx
  rw [hw] at hx
  exact (htidy.owner_ne_of_stop hst hx).2

/-! ### The watches of one folder -/

variable {program : Option Path} {dir : Path} {l : Ledger}

theorem not_isFolder_of_conda {host : Host} {t : WatchTarget}
    (ht : t ∈ (Locator.conda program).watchTargets host) : t.isFolder dir = false := by
  obtain ⟨home, -, rfl⟩ := List.mem_map.1 ht
  rfl

/-- Of the watches that conda starts, those of a folder are the accepted ones among the requests for
it. -/
theorem length_filter_opened (w : Watcher) (p : Nat) {own : List WatchTarget}
    (hown : ∀ t ∈ own, t.isFolder dir = false) (dirs : List Path) :
    ((w.opened (.machine p) (own ++ WatchedLocator.folderTargets dirs)).filter fun x =>
        x.owner == .machine p && x.target.isFolder dir).length =
      ((dirs.filter (·.samePlace dir)).filter fun d =>
        w.accepts (Locator.condaTarget d "*")).length := by
  have hfolder : ∀ d : Path, (Locator.condaTarget d "*").isFolder dir = d.samePlace dir :=
    fun d => rfl
  have hnone : own.filter (fun t => t.isFolder dir && w.accepts t) = [] := by
    rw [List.filter_eq_nil_iff]
    intro t ht
    simp [hown t ht]
  calc ((w.opened (.machine p) (own ++ WatchedLocator.folderTargets dirs)).filter fun x =>
          x.owner == .machine p && x.target.isFolder dir).length
    _ = ((w.opened (.machine p) (own ++ WatchedLocator.folderTargets dirs)).filter fun x =>
          x.target.isFolder dir).length := by
        refine congrArg List.length (List.filter_congr fun x hx => ?_)
        simp [(Watcher.mem_opened hx).1]
    _ = (((own ++ WatchedLocator.folderTargets dirs).filter w.accepts).filter
        (·.isFolder dir)).length := by
        rw [← w.map_target_opened (.machine p), List.filter_map, List.length_map]
        rfl
    _ = ((WatchedLocator.folderTargets dirs).filter fun t =>
        t.isFolder dir && w.accepts t).length := by
        rw [List.filter_filter, List.filter_append, hnone, List.nil_append]
    _ = ((dirs.filter (·.samePlace dir)).filter fun d =>
        w.accepts (Locator.condaTarget d "*")).length := by
        rw [WatchedLocator.folderTargets, List.filter_map, List.length_map, List.filter_filter]
        simp [Function.comp_def, hfolder, Bool.and_comm]

/-- What the ledger says is so: whether the source watches, which folders it heard of, whether it
asked for the folder, and whether it has a watch. -/
structure Settled (s : Session) (p : Nat) (program : Option Path) (dir : Path) (l : Ledger) :
    Prop where
  source : ∃ st, s.watchStates[p]? = some st ∧ st.locator = .conda program ∧
    st.handles.isSome = l.subscribed ∧
    st.reported = l.reported ∧ st.covered.any (·.samePlace dir) = l.answer.isSome
  count : (s.folderWatches p dir).length = if l.answer = some true then 1 else 0

theorem note_of_idle (hidle : s.Idle a p st) (hon : st.handles.isSome = l.subscribed) :
    s.note p dir l a = l := by
  cases a with
  | subscribe c q =>
      rw [note, if_neg]
      rintro ⟨rfl, hoff⟩
      rw [← hon, hidle.watched c rfl] at hoff
      cases hoff
  | enumerate q =>
      by_cases hq : q = p
      · subst hq
        rw [note, hidle.silent rfl]
      · rw [note]
        split
        · exact if_neg hq
        · rfl
  | dispose q =>
      rw [note, if_neg]
      rintro rfl
      exact hidle.kept rfl
  | unsubscribe | change => rfl

/-- A source that asks for folders has subscribers, and the folders are those of the last report. -/
theorem Starts.note_eq {asked : List Path} {new : List Watch} (h : s.Starts a p st asked new s')
    (hon : st.handles.isSome = l.subscribed) (hreported : st.reported = l.reported) :
    s.note p dir l a = Ledger.ask ⟨true, asked, l.answer⟩ s.watcher dir := by
  rcases h.cause with ⟨⟨c, rfl⟩, hnone, rfl⟩ | ⟨rfl, hsome, i, hi, rfl⟩
  · have hoff : l.subscribed = false := by rw [← hon, hnone]; rfl
    rw [note, if_pos ⟨rfl, hoff⟩, hreported]
  · have hon : l.subscribed = true := hon.symm.trans hsome
    rw [note, hi]
    simp [hon]

/-- An act that has no part in a source leaves the watches of its folders as they were. -/
theorem Settled.frame (h : s.Settled p program dir l)
    (hidle : ∀ st, s.watchStates[p]? = some st → st.locator.reportsChanges = true → s.Idle a p st)
    (hstate : s'.watchStates[p]? = s.watchStates[p]?)
    (hwatches : s'.folderWatches p dir = s.folderWatches p dir) :
    s'.Settled p program dir (s.note p dir l a) := by
  obtain ⟨⟨st, hst, hlocator, hon, hrest⟩, hcount⟩ := h
  have hconda : st.locator.reportsChanges = true := by rw [hlocator]; rfl
  rw [note_of_idle (hidle st hst hconda) hon]
  exact ⟨⟨st, hstate.trans hst, hlocator, hon, hrest⟩, hwatches ▸ hcount⟩

/-- A source that asks for folders gets one more watch of a folder that is asked for the first time,
if it can be watched. -/
theorem Settled.started (h : s.Settled p program dir l) {asked : List Path} {new : List Watch}
    (hstarts : s.Starts a p st asked new s') : s'.Settled p program dir (s.note p dir l a) := by
  obtain ⟨⟨st', hst', hlocator, hon, hreported, hcovered⟩, hcount⟩ := h
  obtain rfl : st = st' := Option.some.inj (hstarts.state.symm.trans hst')
  rw [hstarts.note_eq hon hreported, Ledger.ask]
  refine ⟨⟨_, watchState_set hst' hstarts.states, hlocator, rfl, rfl, ?_⟩, ?_⟩
  · rw [WatchedLocator.any_covered, hcovered]
    cases l.answer <;> simp
  · obtain ⟨own, hown, rfl⟩ := hstarts.opened
    have hfolder : ∀ t ∈ own, t.isFolder dir = false := fun t ht =>
      not_isFolder_of_conda (hlocator ▸ hown t ht)
    have hactive : s'.watcher.active = s.watcher.active ++ _ := congrArg (·.active) hstarts.watcher
    rw [folderWatches] at hcount
    rw [folderWatches, hactive, List.filter_append, List.length_append, hcount,
      length_filter_opened _ _ hfolder, WatchedLocator.filter_uncovered, hcovered]
    cases l.answer with
    | some b => simp
    | none =>
        cases asked.find? (·.samePlace dir) with
        | none => simp
        | some d => cases h : s.watcher.accepts (Locator.condaTarget d "*") <;> simp [h]

/-- Watches of other sources are not those of a folder of this one. -/
theorem folderWatches_of_started {asked : List Path} {new : List Watch}
    (h : s.Starts a q st asked new s') (hq : q ≠ p) :
    s'.folderWatches p dir = s.folderWatches p dir := by
  have hactive : s'.watcher.active = s.watcher.active ++ new := congrArg (·.active) h.watcher
  have hother : new.filter (fun x => x.owner == .machine p && x.target.isFolder dir) = [] := by
    rw [List.filter_eq_nil_iff]
    intro x hx
    simp [(h.mem_new hx).1, hq]
  rw [folderWatches, hactive, List.filter_append, hother, List.append_nil, folderWatches]

theorem Tidy.folderWatches_of_stop (htidy : s.Tidy) (hst : s.watchStates[q]? = some st)
    (hw : s'.watcher = s.watcher.stop (st.handles.getD [])) (hq : q ≠ p) :
    s'.folderWatches p dir = s.folderWatches p dir := by
  rw [folderWatches, folderWatches, hw, Watcher.stop, List.filter_filter]
  refine List.filter_congr fun x hx => ?_
  by_cases howner : x.owner = .machine p
  · have hnot : x.handle ∉ st.handles.getD [] := by
      rw [htidy.owned x hx q st hst, howner]
      simpa using Ne.symm hq
    simp [hnot]
  · simp [howner]

theorem Settled.disposed (h : s.Settled p program dir l) (htidy : s.Tidy)
    (hst : s.watchStates[p]? = some st) (hw : s'.watcher = s.watcher.stop (st.handles.getD []))
    (hstates : s'.watchStates = s.watchStates.set p ⟨st.locator, none, st.reported, []⟩) :
    s'.Settled p program dir (s.note p dir l (.dispose p)) := by
  obtain ⟨⟨st', hst', hlocator, -, hreported, -⟩, -⟩ := h
  obtain rfl : st = st' := Option.some.inj (hst.symm.trans hst')
  have hgone : s'.folderWatches p dir = [] := by
    rw [folderWatches, hw, List.filter_eq_nil_iff]
    intro x hx
    simp [(htidy.owner_ne_of_stop hst hx).2]
  rw [note, if_pos rfl]
  exact ⟨⟨_, watchState_set hst hstates, hlocator, rfl, hreported, rfl⟩, by rw [hgone]; rfl⟩

/-- **What the ledger says stays so** in every step. -/
theorem Settled.step (h : s.Settled p program dir l) (htidy : s.Tidy) (hstep : s.WatchStep a s') :
    s'.Settled p program dir (s.note p dir l a) := by
  cases hstep with
  | still hactive _ hstates hidle =>
      exact h.frame (hidle p) (by rw [hstates]) (by rw [folderWatches, folderWatches, hactive])
  | @noted _ q st i hst hresting hi hw hstates =>
      have hwatches : s'.folderWatches p dir = s.folderWatches p dir := by
        rw [folderWatches, folderWatches, hw]
      by_cases hq : q = p
      · subst hq
        obtain ⟨⟨st', hst', hlocator, hon, -, hcovered⟩, hcount⟩ := h
        obtain rfl : st = st' := Option.some.inj (hst.symm.trans hst')
        have hoff : l.subscribed = false := by rw [← hon, hresting]; rfl
        have hnote : s.note q dir l (.enumerate q) = { l with reported := i.envsDirs } := by
          rw [note, hi]
          simp [hoff]
        rw [hnote]
        exact ⟨⟨_, watchState_set hst hstates, hlocator, hon, rfl, hcovered⟩, hwatches ▸ hcount⟩
      · exact h.frame (fun st' _ _ => idle_of_ne (by simp) (by simp [hq]) (by simp))
          (by rw [hstates, List.getElem?_set_ne hq]) hwatches
  | @started _ _ q st asked new hstarts =>
      by_cases hq : q = p
      · subst hq
        exact h.started hstarts
      · refine h.frame (fun st' _ _ => ?_) (by rw [hstarts.states, List.getElem?_set_ne hq])
          (folderWatches_of_started hstarts hq)
        rcases hstarts.cause with ⟨⟨c, rfl⟩, -⟩ | ⟨rfl, -⟩
        · exact idle_of_ne (by simp [hq]) (by simp) (by simp)
        · exact idle_of_ne (by simp) (by simp [hq]) (by simp)
  | @disposed _ q st hst hw hstates =>
      by_cases hq : q = p
      · subst hq
        exact h.disposed htidy hst hw hstates
      · exact h.frame (fun st' _ _ => idle_of_ne (by simp) (by simp) (by simp [hq]))
          (by rw [hstates, List.getElem?_set_ne hq]) (htidy.folderWatches_of_stop hst hw hq)

theorem Settled.isWatching (h : s.Settled p program dir l) :
    s.sources[p]?.map (·.notifier.isWatching) = some l.subscribed := by
  obtain ⟨⟨st, hst, -, hon, -⟩, -⟩ := h
  obtain ⟨x, hx, rfl⟩ := source_of_watchState hst
  rw [hx]
  exact congrArg some hon

/-- A report that comes while the source is watched leaves a watch of each of its folders, unless
the folder could not be watched when it was first asked for. -/
theorem Settled.count_enumerate (h : s.Settled p program dir l) (htidy : s.Tidy)
    (hon : l.subscribed = true) {i : CondaInfo} (hi : (s.report p).report = some i) {d : Path}
    (hd : i.envsDirs.find? (·.samePlace dir) = some d) :
    ((s.sourceAct (.enumerate p)).folderWatches p dir).length =
      if l.answer.getD (s.watcher.accepts (Locator.condaTarget d "*")) then 1 else 0 := by
  have hnote : (s.note p dir l (.enumerate p)).answer =
      (l.answer <|> some (s.watcher.accepts (Locator.condaTarget d "*"))) := by
    rw [note, hi]
    simp [hon, Ledger.ask, hd]
  rw [(h.step htidy (s.sourceAct_watchStep (.enumerate p))).count, hnote]
  cases l.answer <;> simp

/-! ### Runs -/

theorem ledger_concat (s : Session) (p : Nat) (dir : Path) (as : List SourceAct) (a : SourceAct) :
    s.ledger p dir (as ++ [a]) = (s.sourceActs as).note p dir (s.ledger p dir as) a := by
  have hsession : ∀ (as : List SourceAct) (t : Session) (l : Ledger),
      (as.foldl (fun (t, l) a => (t.sourceAct a, t.note p dir l a)) (t, l)).1 =
        t.sourceActs as := by
    intro as
    induction as with
    | nil => exact fun _ _ => rfl
    | cons a as ih => exact fun t l => ih (t.sourceAct a) (t.note p dir l a)
  rw [ledger, List.foldl_append, ← hsession as s .empty]
  rfl

theorem Tidy.run (htidy : s.Tidy) (as : List SourceAct) : (s.sourceActs as).Tidy := by
  induction as using List.reverseRecOn with
  | nil => exact htidy
  | append_singleton as a ih =>
      rw [sourceActs_concat]
      exact ih.step (sourceAct_watchStep _ a)

/-- After a run, what the ledger says is so. -/
theorem Settled.run (h : s.Settled p program dir .empty) (htidy : s.Tidy) (as : List SourceAct) :
    (s.sourceActs as).Settled p program dir (s.ledger p dir as) := by
  induction as using List.reverseRecOn with
  | nil => exact h
  | append_singleton as a ih =>
      rw [sourceActs_concat, ledger_concat]
      exact ih.step (htidy.run as) (sourceAct_watchStep _ a)

/-- Opening the folders of a new workspace starts no watches. -/
theorem ofFolders_active (factories : List RootFactory) (host : Host) (w : Watcher)
    (folders : List Path) :
    (Workspace.ofFolders factories host w folders).1.forwarding = false ∧
      (Workspace.ofFolders factories host w folders).2 = w := by
  induction folders using List.reverseRecOn with
  | nil => exact ⟨rfl, rfl⟩
  | append_singleton folders root ih =>
      rw [Workspace.ofFolders_concat]
      generalize Workspace.ofFolders factories host w folders = start at ih ⊢
      obtain ⟨ws, w'⟩ := start
      obtain ⟨hforwarding, rfl⟩ : ws.forwarding = false ∧ w' = w := ih
      rw [Workspace.addRoot]
      split
      · exact ⟨hforwarding, rfl⟩
      · rw [hforwarding]
        exact ⟨rfl, rfl⟩

theorem newWith_active (factories : List RootFactory) (machine : Machine)
    (cache : Option Resolution.Cache) (now : Timestamp) (store : Store) (sources : List Locator)
    (watcher : Watcher) (folders : List Path) (joins : Bool) :
    (newWith factories machine cache now store sources watcher folders joins).watcher.active =
      watcher.active := by
  have hnative : ∀ (folders : List Path) (w : Watcher), (folders.foldl Watcher.addNative w).active =
      w.active := by
    intro folders
    induction folders with
    | nil => exact fun _ => rfl
    | cons root folders ih =>
        intro w
        rw [List.foldl_cons, ih, Watcher.addNative]
        split <;> rfl
  exact (congrArg (·.active) (ofFolders_active factories machine.host _ folders).2).trans
    (hnative folders watcher)

/-- At first no source watches, and nothing was asked for. -/
theorem tidy_newWith (factories : List RootFactory) (machine : Machine)
    (cache : Option Resolution.Cache) (now : Timestamp) (store : Store) (sources : List Locator)
    (enabled : Bool) (refused folders : List Path) (joins : Bool) :
    (newWith factories machine cache now store sources (.new enabled refused) folders
      joins).Tidy := by
  have hnone : (newWith factories machine cache now store sources (.new enabled refused) folders
    joins).watcher.active =
      [] := newWith_active ..
  refine ⟨?_, ?_, ?_⟩
  · rw [hnone]
    exact fun _ h => nomatch h
  · intro q st hst n hn
    obtain ⟨x, hx, rfl⟩ := source_of_watchState hst
    obtain ⟨l, -, rfl⟩ := List.mem_map.1 (List.mem_of_getElem? hx)
    cases hn
  · rw [hnone]
    exact fun _ h => nomatch h

theorem settled_newWith (factories : List RootFactory) (machine : Machine)
    (cache : Option Resolution.Cache) (now : Timestamp) (store : Store) {sources : List Locator}
    (enabled : Bool) (refused folders : List Path) (joins : Bool)
    (hp : sources[p]? = some (.conda program)) (dir : Path) :
    (newWith factories machine cache now store sources (.new enabled refused) folders joins).Settled
      p program dir
      .empty := by
  have hnone : (newWith factories machine cache now store sources (.new enabled refused) folders
    joins).watcher.active =
      [] := newWith_active ..
  have hx : (sources.map WatchedLocator.ofLocator)[p]? = some (.ofLocator (.conda program)) := by
    rw [List.getElem?_map, hp]
    rfl
  refine ⟨⟨_, watchStates_getElem? hx, rfl, rfl, rfl, rfl⟩, ?_⟩
  rw [folderWatches, hnone]
  rfl

/-- **The first answer decides.** Along every run, conda watches a folder at most once, and it does
if and only if the folder could be watched when it was first asked for since the source was last
disposed of. A report that comes while the source is watched asks for the folders that were not
asked for before; one that could not be watched is not asked for again, though it may be watchable
by now. A source that is disposed of keeps no watches. -/
theorem first_answer_decides_folder_watches (factories : List RootFactory) (machine : Machine)
    (cache : Option Resolution.Cache) (now : Timestamp) (store : Store) (sources : List Locator)
    (enabled : Bool) (refused folders : List Path) (joins : Bool) (p : Nat) (program : Option Path)
    (hp : sources[p]? = some (.conda program)) (as : List SourceAct) (dir : Path) :
    let start :=
      newWith factories machine cache now store sources (.new enabled refused) folders joins
    let s := start.sourceActs as
    let l := start.ledger p dir as
    s.sources[p]?.map (·.notifier.isWatching) = some l.subscribed ∧
      (s.folderWatches p dir).length = (if l.answer = some true then 1 else 0) ∧
      (∀ i d, l.subscribed = true → (s.report p).report = some i →
        i.envsDirs.find? (·.samePlace dir) = some d →
        ((s.sourceAct (.enumerate p)).folderWatches p dir).length =
          if l.answer.getD (s.watcher.accepts (Locator.condaTarget d "*")) then 1 else 0) ∧
      ∀ x ∈ (s.sourceAct (.dispose p)).watcher.active, x.owner ≠ .machine p := by
  intro start s l
  have hstart : start.Tidy :=
    tidy_newWith factories machine cache now store sources enabled refused folders joins
  have htidy : s.Tidy := hstart.run as
  have hsettled : s.Settled p program dir l :=
    (settled_newWith factories machine cache now store enabled refused folders joins hp dir).run
      hstart as
  obtain ⟨st, hst, -⟩ := hsettled.source
  refine ⟨hsettled.isWatching, hsettled.count, ?_, htidy.owner_ne_of_dispose hst⟩
  exact fun i d hon hi hd => hsettled.count_enumerate htidy hon hi hd

/-- A machine with a program `conda` that reports the given folders. -/
def condaReporting (dirs : String) : Machine :=
  let conda : Path := ⟨"/opt/conda/bin/conda"⟩
  let report := "\x7b\"envs_dirs\":[" ++ dirs ++ "]\x7d"
  { Machine.bare with
    fs :=
      { Machine.bare.fs with stat := fun p =>
        if p = conda then some ⟨0, none, none, false, false⟩ else none }
    executor := ⟨fun _ => .ok ⟨some 0, Text.bytes report, []⟩⟩ }

/-- A session whose only source is the conda that reports a folder, which cannot be watched. -/
def overRefusedFolder : Session :=
  newWith [] (condaReporting "\"/opt/conda/envs\"") none ⟨0, 0⟩ .inMemory
    [.conda (some ⟨"/opt/conda/bin/conda"⟩)]
    (.new true [⟨"/opt/conda/envs"⟩]) [] false

/-- A folder that could not be watched at first stays without a watch when it can be watched, while
a folder that is new in the report is watched. -/
theorem first_answer_decides_folder_watches_later :
    let later := condaReporting "\"/opt/conda/envs\",\"/opt/envs\""
    let s := overRefusedFolder.sourceActs [.subscribe "client" 0, .enumerate 0, .change later []]
    s.watcher.accepts (Locator.condaTarget ⟨"/opt/conda/envs"⟩ "*") = true ∧
      ((s.sourceAct (.enumerate 0)).folderWatches 0 ⟨"/opt/conda/envs"⟩).length = 0 ∧
      ((s.sourceAct (.enumerate 0)).folderWatches 0 ⟨"/opt/envs"⟩).length = 1 := by
  intro later s
  let as : List SourceAct := [.subscribe "client" 0, .enumerate 0, .change later []]
  let i : CondaInfo := ⟨[], none, none, [⟨"/opt/conda/envs"⟩, ⟨"/opt/envs"⟩], none⟩
  have hreport : (s.report 0).report = some i := by decide +kernel
  have hold : ((s.sourceAct (.enumerate 0)).folderWatches 0 ⟨"/opt/conda/envs"⟩).length =
      if (overRefusedFolder.ledger 0 ⟨"/opt/conda/envs"⟩ as).answer.getD
        (s.watcher.accepts (Locator.condaTarget ⟨"/opt/conda/envs"⟩ "*")) then 1 else 0 :=
    (first_answer_decides_folder_watches [] (condaReporting "\"/opt/conda/envs\"") none
      ⟨0, 0⟩ .inMemory
      [.conda (some ⟨"/opt/conda/bin/conda"⟩)] true [⟨"/opt/conda/envs"⟩] [] false 0
      (some ⟨"/opt/conda/bin/conda"⟩) rfl as ⟨"/opt/conda/envs"⟩).2.2.1 i _ (by decide +kernel)
        hreport
      (by decide +kernel)
  have hnew : ((s.sourceAct (.enumerate 0)).folderWatches 0 ⟨"/opt/envs"⟩).length =
      if (overRefusedFolder.ledger 0 ⟨"/opt/envs"⟩ as).answer.getD
        (s.watcher.accepts (Locator.condaTarget ⟨"/opt/envs"⟩ "*")) then 1 else 0 :=
    (first_answer_decides_folder_watches [] (condaReporting "\"/opt/conda/envs\"") none
      ⟨0, 0⟩ .inMemory
      [.conda (some ⟨"/opt/conda/bin/conda"⟩)] true [⟨"/opt/conda/envs"⟩] [] false 0
      (some ⟨"/opt/conda/bin/conda"⟩) rfl as ⟨"/opt/envs"⟩).2.2.1 i _ (by decide +kernel) hreport
      (by decide +kernel)
  have hrefused : (overRefusedFolder.ledger 0 ⟨"/opt/conda/envs"⟩ as).answer = some false := by
    decide +kernel
  have hunasked : (overRefusedFolder.ledger 0 ⟨"/opt/envs"⟩ as).answer = none := by decide +kernel
  rw [hold, hnew, hrefused, hunasked]
  exact ⟨by decide +kernel, rfl, if_pos (by decide +kernel)⟩

/-- A report names a folder that could be watched now, and yet it has no watch after the report,
because it could not be watched under another spelling before. -/
theorem refused_folder_is_not_asked_for_again :
    let dir : Path := ⟨"/opt/conda/x/../envs"⟩
    let later := condaReporting "\"/opt/conda/x/../envs\""
    let s := overRefusedFolder.sourceActs
      [.subscribe "client" 0, .enumerate 0, .change later [⟨"/opt/conda/envs"⟩]]
    (s.report 0).report.map (·.envsDirs) = some [dir] ∧
      s.watcher.accepts (Locator.condaTarget dir "*") = true ∧
      s.sources[0]?.map (·.notifier.isWatching) = some true ∧
      ((s.sourceAct (.enumerate 0)).folderWatches 0 dir).length = 0 := by
  intro dir later s
  let as : List SourceAct := [.subscribe "client" 0, .enumerate 0,
    .change later [⟨"/opt/conda/envs"⟩]]
  have hreport : (s.report 0).report = some ⟨[], none, none, [dir], none⟩ := by decide +kernel
  have hstart : overRefusedFolder.Tidy := tidy_newWith ..
  have hsettled : s.Settled 0 (some ⟨"/opt/conda/bin/conda"⟩) dir
      (overRefusedFolder.ledger 0 dir as) :=
    (settled_newWith [] _ none ⟨0, 0⟩ .inMemory true _ [] false rfl dir).run hstart as
  have hon : (overRefusedFolder.ledger 0 dir as).subscribed = true := by decide +kernel
  have hrefused : (overRefusedFolder.ledger 0 dir as).answer = some false := by decide +kernel
  have hnamed : [dir].find? (·.samePlace dir) = some dir := by decide +kernel
  refine ⟨by rw [hreport]; rfl, by decide +kernel, hon ▸ hsettled.isWatching, ?_⟩
  rw [hsettled.count_enumerate (hstart.run as) hon hreport hnamed, hrefused]
  rfl

end Session

end EnvDiscovery
