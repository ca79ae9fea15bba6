import EnvDiscovery.Discovery.Session
import EnvDiscovery.Proofs.EnvSet

/-!
**What a search answers.**

The sources of a search deliver their records in any interleaving. The records that the query lets
through are merged, so that a record of the answer may take its kind, its executable, its place and
its sources from different reports. Nothing is assumed of the file system.

Main definitions:
* `Interleaving` — the elements of some lists in one list, those of each list in its order;
* `Composite.InBounds` — the positions that are looked up while a list of reports is joined;
* `Composite.Answers` — what an answer owes to the query and to the reports;
* `Session.streams`, `Session.gathered` — what the sources and roots of a session report for a
  query, and what a search gathers of it.

Main results:
* `roundRobin_interleaving` — taking one element of each list in turn is an interleaving;
* `Composite.collect_answers` — joining any interleaving gives an answer;
* `Session.listSource_run_of_some`, `Session.listSources_run_frame` — what listing sources does to a
  session;
* `Session.search_eq_collect` — a search joins an interleaving of what its sources report;
* `Composite.search_answers_query` — **searches are sound and complete** for every query, file
  system and interleaving.
-/

namespace EnvDiscovery

/-! ### Interleavings -/

/-- `Interleaving lists xs` says that `xs` consists of the elements of the lists, those of each list
in its order. -/
inductive Interleaving {α : Type} : List (List α) → List α → Prop where
  /-- All lists have ended. -/
  | done {lists : List (List α)} (h : ∀ l ∈ lists, l = []) : Interleaving lists []
  /-- The next element is the first that one of the lists has left. -/
  | take {before after : List (List α)} {x : α} {l rest : List α}
      (h : Interleaving (before ++ l :: after) rest) :
      Interleaving (before ++ (x :: l) :: after) (x :: rest)

namespace Interleaving

variable {α β : Type} {lists : List (List α)} {xs : List α}

/-- Nothing is lost. -/
theorem mem_of_mem (h : Interleaving lists xs) {l : List α} {x : α} (hl : l ∈ lists) (hx : x ∈ l) :
    x ∈ xs := by
  induction h generalizing l with
  | done hnil => simp [hnil l hl] at hx
  | @take before after y l' rest _ ih =>
      rcases List.mem_append.1 hl with hl | hl
      · exact List.mem_cons_of_mem _ (ih (by simp [hl]) hx)
      · rcases List.mem_cons.1 hl with rfl | hl
        · rcases List.mem_cons.1 hx with rfl | hx
          · exact List.mem_cons_self
          · exact List.mem_cons_of_mem _ (ih (by simp) hx)
        · exact List.mem_cons_of_mem _ (ih (by simp [hl]) hx)

/-- Choosing elements and interleaving commute. -/
theorem filterMap (f : α → Option β) (h : Interleaving lists xs) :
    Interleaving (lists.map (List.filterMap f)) (xs.filterMap f) := by
  induction h with
  | done hnil =>
      refine .done fun l hl => ?_
      obtain ⟨l', hl', rfl⟩ := List.mem_map.1 hl
      rw [hnil l' hl', List.filterMap_nil]
  | @take before after x l rest _ ih =>
      rw [List.map_append, List.map_cons] at ih ⊢
      cases hx : f x with
      | none => simpa [List.filterMap_cons_none hx] using ih
      | some y =>
          rw [List.filterMap_cons_some hx, List.filterMap_cons_some hx]
          exact .take ih

/-- A round takes the first element of every list that has one. -/
theorem round (before : List (List α)) {rest : List α}
    (h : Interleaving (before ++ lists.map List.tail) rest) :
    Interleaving (before ++ lists) (lists.filterMap List.head? ++ rest) := by
  induction lists generalizing before with
  | nil => simpa using h
  | cons l lists ih =>
      cases l with
      | nil =>
          have hih := ih (before ++ [[]]) (by simpa using h)
          simpa [List.filterMap_cons] using hih
      | cons x l =>
          have hih := ih (before ++ [l]) (by simpa using h)
          simpa [List.filterMap_cons] using take (by simpa using hih)

end Interleaving

theorem roundRobinFor_interleaving {α : Type} (n : Nat) (lists : List (List α))
    (hlen : ∀ l ∈ lists, l.length ≤ n) : Interleaving lists (roundRobinFor n lists) := by
  induction n generalizing lists with
  | zero => exact .done fun l hl => List.length_eq_zero_iff.1 (Nat.le_zero.1 (hlen l hl))
  | succ n ih =>
      have htail : Interleaving (lists.map List.tail) (roundRobinFor n (lists.map List.tail)) := by
        refine ih _ fun l hl => ?_
        obtain ⟨l', hl', rfl⟩ := List.mem_map.1 hl
        have := hlen l' hl'
        rw [List.length_tail]
        omega
      exact Interleaving.round [] htail

theorem le_foldl_max (ns : List Nat) (m : Nat) :
    m ≤ ns.foldl max m ∧ ∀ n ∈ ns, n ≤ ns.foldl max m := by
  induction ns generalizing m with
  | nil => simp
  | cons k ns ih =>
      obtain ⟨hstart, hrest⟩ := ih (max m k)
      rw [List.foldl_cons, List.forall_mem_cons]
      exact ⟨by omega, by omega, hrest⟩

/-- Taking one element of each list in turn is an interleaving. -/
theorem roundRobin_interleaving {α : Type} (lists : List (List α)) :
    Interleaving lists (roundRobin lists) := by
  refine roundRobinFor_interleaving _ _ fun l hl => ?_
  exact (le_foldl_max (lists.map List.length) 0).2 _ (List.mem_map_of_mem hl)

/-! ### Joining reports -/

namespace Composite

variable {fs : FileSystem} {q : Query} {found : List EnvRecord}

/-- Every position that is looked up while the reports are joined one after the other is that of a
record. -/
def InBounds (fs : FileSystem) (q : Query) (found : List EnvRecord) : Prop :=
  ∀ before e after, found.filter (admits fs q) = before ++ e :: after →
    ∀ i, (EnvSet.ofList fs.realPath before).position? (EnvSet.keysOf e (fs.realPath e.path)) =
      some i →
      i < (EnvSet.ofList fs.realPath before).records.length

theorem inBounds (fs : FileSystem) (q : Query) (found : List EnvRecord) : InBounds fs q found :=
  fun before _ _ _ _ hpos => EnvSet.position?_lt_length fs.realPath before hpos

/-- Whether the place of a record is allowed: if the query names roots, the place is one of them, or
there is none and records of no root are wanted. -/
def AllowedPlace (q : Query) (r : EnvRecord) : Prop :=
  ∀ scope, q.scope = some scope → scope.roots ≠ [] →
    (∃ place, r.searchLocation = some place ∧ ∃ root ∈ scope.roots, root.samePlace place = true) ∨
      (r.searchLocation = none ∧ scope.includeNonRooted = true)

theorem allowedPlace_of_inScope {e : EnvRecord} (h : q.inScope e = true) : AllowedPlace q e := by
  intro scope hscope hroots
  have hempty : scope.roots.isEmpty = false := by simpa using hroots
  cases hplace : e.searchLocation with
  | none =>
      refine Or.inr ⟨rfl, ?_⟩
      simpa [Query.inScope, Query.isRootScoped, Query.roots, Query.includesNonRooted, hscope,
        hempty, hplace]
        using h
  | some place =>
      refine Or.inl ⟨place, rfl, ?_⟩
      simpa [Query.inScope, Query.isRootScoped, Query.roots, hscope, hempty, hplace] using h

/-- A merged record has the place of one of the reports. -/
theorem AllowedPlace.merge {a b : EnvRecord} (ha : AllowedPlace q a) (hb : AllowedPlace q b) :
    AllowedPlace q (a.merge b) := by
  intro scope hscope hroots
  rcases a.merge_searchLocation b with h | h
  · rw [h]
    exact ha scope hscope hroots
  · rw [h]
    exact hb scope hscope hroots

/-- The records `es` answer a query about what the streams reported: every record is of a wanted
kind, leads to a file and has an allowed place, and every report that passes the filters is covered
by a record. -/
structure Answers (fs : FileSystem) (q : Query) (streams : List (List EnvRecord))
    (es : List EnvRecord) :
    Prop where
  kind : ∀ r ∈ es, q.matchesKind r.kind = true
  file : ∀ r ∈ es, fs.isFile r.path = true
  place : ∀ r ∈ es, AllowedPlace q r
  covered : ∀ reports ∈ streams, ∀ e ∈ reports,
    q.matchesKind e.kind = true → q.inScope e = true → fs.isFile e.path = true →
      ∃ r ∈ es, r.Covers e

theorem admits_iff {e : EnvRecord} :
    admits fs q e = true ↔ q.matchesKind e.kind = true ∧ q.inScope e = true ∧
    fs.isFile e.path = true := by
  simp [admits, and_assoc]

/-- What every admitted report has and merging keeps, every joined record has. -/
theorem collect_forall {P : EnvRecord → Prop} (hmerge : ∀ a b, P a → P b → P (a.merge b))
    (hall : ∀ e, admits fs q e = true → P e) : ∀ r ∈ collect fs q found, P r :=
  EnvSet.ofList_forall hmerge fs.realPath fun e he => hall e (List.mem_filter.1 he).2

/-- Kind and executable of a merged record come from one report, so a condition on either
survives. -/
theorem origin_merge {P : EnvKind → Path → Prop} {a b : EnvRecord} (ha : P a.kind a.path)
    (hb : P b.kind b.path) : P (a.merge b).kind (a.merge b).path := by
  rcases a.merge_origin b with ⟨hk, hp⟩ | ⟨hk, hp⟩
  · rwa [hk, hp]
  · rwa [hk, hp]

/-- Joining any interleaving of what the streams report gives an answer. -/
theorem collect_answers {streams : List (List EnvRecord)} (h : Interleaving streams found) :
    Answers fs q streams (collect fs q found) where
  kind :=
    collect_forall (fun _ _ => origin_merge (P := fun k _ => q.matchesKind k = true))
      fun _ he => (admits_iff.1 he).1
  file :=
    collect_forall (fun _ _ => origin_merge (P := fun _ p => fs.isFile p = true))
      fun _ he => (admits_iff.1 he).2.2
  place :=
    collect_forall (fun _ _ => AllowedPlace.merge) fun _ he =>
      allowedPlace_of_inScope (admits_iff.1 he).2.1
  covered := by
    intro reports hreports e he hkind hscope hfile
    have hadmitted : e ∈ found.filter (admits fs q) :=
      List.mem_filter.2 ⟨h.mem_of_mem hreports he, admits_iff.2 ⟨hkind, hscope, hfile⟩⟩
    exact EnvSet.ofList_covers fs.realPath _ e hadmitted

theorem untilGap_eq_some {items : List (Option EnvRecord)} {es : List EnvRecord}
    (h : untilGap items = some es) :
    items = es.map some := by
  induction items generalizing es with
  | nil =>
      obtain rfl : [] = es := by simpa [untilGap] using h
      rfl
  | cons item items ih =>
      cases item with
      | none => simp [untilGap] at h
      | some e =>
          obtain ⟨rest, hrest, rfl⟩ : ∃ rest, untilGap items = some rest ∧ e :: rest = es := by
            simpa [untilGap] using h
          rw [ih hrest, List.map_cons]

end Composite

/-! ### Sessions -/

theorem Found.items_of_breaksAtOnce {f : Found} (h : f.breaksAtOnce = true) : none ∈ f.items := by
  have hbreaks : f.breaksOff = true := by simp_all [Found.breaksAtOnce]
  simp [Found.items, hbreaks]

theorem Found.filterMap_items (f : Found) : f.items.filterMap (fun item => item) = f.records := by
  cases h : f.breaksOff <;> simp [Found.items, h]

theorem WatchedLocator.noteReport_locator (x : WatchedLocator) (w : Watcher) (owner : WatchOwner)
    (i : CondaInfo) : (x.noteReport w owner i).1.locator = x.locator := by
  unfold WatchedLocator.noteReport
  split <;> rfl

namespace Session

/-- What a source of the session reports. -/
def report (s : Session) (position : Nat) : Found :=
  match s.sources[position]? with
  | none => .ofRecords []
  | some x => (x.locator.list s.machine).value

/-- The records that the sources and roots report which a query searches, one list for each source
and one for the roots. -/
def streams (s : Session) (q : Query) : List (List EnvRecord) :=
  (s.searched q).map (fun i => (s.report i).records) ++
    [(s.workspace.list s.machine.toSurroundings (s.searchedRoots q)).filterMap fun item => item]

/-- The sources, the machine and the workspace are the same in both sessions. -/
structure SameSources (s t : Session) : Prop where
  machine : t.machine = s.machine
  workspace : t.workspace = s.workspace
  locators : t.sources.map (·.locator) = s.sources.map (·.locator)

theorem SameSources.refl (s : Session) : SameSources s s := ⟨rfl, rfl, rfl⟩

theorem SameSources.trans {s t u : Session} (h : SameSources s t) (h' : SameSources t u) :
    SameSources s u :=
  ⟨h'.machine.trans h.machine, h'.workspace.trans h.workspace, h'.locators.trans h.locators⟩

theorem report_eq (s : Session) (i : Nat) :
    s.report i =
      (s.sources.map (·.locator))[i]?.elim (.ofRecords []) fun l => (l.list s.machine).value := by
  unfold report
  cases h : s.sources[i]? <;> simp [h]

theorem SameSources.report {s t : Session} (h : SameSources s t) (i : Nat) :
    t.report i = s.report i := by
  rw [report_eq, report_eq, h.locators, h.machine]

/-- A source and the watches after the source has taken note of its report. -/
def noted (s : Session) (i : Nat) (x : WatchedLocator) : WatchedLocator × Watcher :=
  (s.report i).report.elim (x, s.watcher) (x.noteReport s.watcher (.machine i))

theorem noted_locator (s : Session) (i : Nat) (x : WatchedLocator) :
    (s.noted i x).1.locator = x.locator := by
  rw [noted]
  cases (s.report i).report with
  | none => rfl
  | some r => exact x.noteReport_locator s.watcher (.machine i) r

theorem listSource_run_of_none {s : Session} {i : Nat} (hx : s.sources[i]? = none) :
    (listSource i).run s = (.ofRecords [], s) := by
  rw [listSource, StateT.run_bind, StateT.run_get, pure_bind]
  dsimp only
  rw [hx]
  rfl

/-- Listing a source gives its report, of which the source takes note. -/
theorem listSource_run_of_some {s : Session} {i : Nat} {x : WatchedLocator}
    (hx : s.sources[i]? = some x) :
    (listSource i).run s = (s.report i, { s with
      calls := s.calls ++ (x.locator.list s.machine).calls
      sources := s.sources.set i (s.noted i x).1
      watcher := (s.noted i x).2 }) := by
  have hreport : s.report i = (x.locator.list s.machine).value := by simp [Session.report, hx]
  rw [listSource, StateT.run_bind, StateT.run_get, pure_bind, noted]
  dsimp only
  rw [hx, hreport]
  dsimp only
  generalize x.locator.list s.machine = listed
  rw [traced, bind_assoc, StateT.run_bind, StateT.run_modify, pure_bind, pure_bind]
  cases listed.value.report with
  | none =>
      obtain ⟨hlt, rfl⟩ := List.getElem?_eq_some_iff.1 hx
      rw [Option.elim_none, List.set_getElem_self]
      rfl
  | some r => rfl

/-- Listing one source gives its report and changes no source. -/
theorem listSource_run (s : Session) (i : Nat) :
    ((listSource i).run s).1 = s.report i ∧ SameSources s ((listSource i).run s).2 := by
  cases hx : s.sources[i]? with
  | none =>
      rw [listSource_run_of_none hx]
      exact ⟨by simp [Session.report, hx], .refl s⟩
  | some x =>
      rw [listSource_run_of_some hx]
      refine ⟨rfl, rfl, rfl, ?_⟩
      obtain ⟨hlt, rfl⟩ := List.getElem?_eq_some_iff.1 hx
      rw [List.map_set, noted_locator, ← List.map_set, List.set_getElem_self]

theorem listSources_cons_run (i : Nat) (ps : List Nat) (s : Session) :
    (listSources (i :: ps)).run s =
      if ((listSource i).run s).1.breaksAtOnce then ([((listSource i).run s).1],
        ((listSource i).run s).2)
      else
        (((listSource i).run s).1 :: ((listSources ps).run ((listSource i).run s).2).1,
          ((listSources ps).run ((listSource i).run s).2).2) := by
  simp only [listSources, StateT.run_bind]
  change StateT.run (if ((listSource i).run s).1.breaksAtOnce then _ else _) _ = _
  split <;> rfl

/-- Listing sources runs programs and starts watches; nothing else changes. -/
theorem listSources_run_frame (ps : List Nat) (s : Session) :
    ∃ calls sources watcher,
      ((listSources ps).run s).2 =
        { s with calls := calls, sources := sources, watcher := watcher } := by
  induction ps generalizing s with
  | nil => exact ⟨_, _, _, rfl⟩
  | cons i ps ih =>
      obtain ⟨calls, sources, watcher, hfirst⟩ : ∃ calls sources watcher,
          ((listSource i).run s).2 =
            { s with calls := calls, sources := sources, watcher := watcher } := by
        cases hx : s.sources[i]? with
        | none => exact ⟨_, _, _, by rw [listSource_run_of_none hx]⟩
        | some x => exact ⟨_, _, _, by rw [listSource_run_of_some hx]⟩
      obtain ⟨calls', sources', watcher', hrest⟩ := ih ((listSource i).run s).2
      rw [listSources_cons_run]
      split
      · exact ⟨_, _, _, hfirst⟩
      · exact ⟨calls', sources', watcher', by rw [hrest, hfirst]⟩

/-- Listing sources changes none of them, and gives all their reports unless one breaks off at
once. -/
theorem listSources_run (ps : List Nat) (s : Session) :
    SameSources s ((listSources ps).run s).2 ∧
      ((∃ f ∈ ((listSources ps).run s).1, f.breaksAtOnce = true) ∨
        ((listSources ps).run s).1 = ps.map s.report) := by
  induction ps generalizing s with
  | nil => exact ⟨.refl s, Or.inr rfl⟩
  | cons i ps ih =>
      obtain ⟨hvalue, hsame⟩ := listSource_run s i
      obtain ⟨hsame', hrest⟩ := ih ((listSource i).run s).2
      rw [listSources_cons_run]
      split
      · exact ⟨hsame, Or.inl ⟨_, List.mem_singleton_self _, ‹_›⟩⟩
      · refine ⟨hsame.trans hsame', ?_⟩
        rcases hrest with ⟨f, hf, hbreak⟩ | hrest
        · exact Or.inl ⟨f, List.mem_cons_of_mem _ hf, hbreak⟩
        · refine Or.inr ?_
          rw [hrest, hvalue, List.map_cons]
          exact congrArg _ (List.map_congr_left fun j _ => hsame.report j)

/-- The records that a search joins, before the query filters them; nothing if a source broke
off. -/
def gathered (s : Session) (q : Query) : Option (List EnvRecord) :=
  Composite.untilGap (roundRobin (((listSources (s.searched q)).run s).1.map Found.items ++
    [s.workspace.list s.machine.toSurroundings (s.searchedRoots q)]))

/-- A search joins what it gathers. -/
theorem search_run_result (s : Session) (q : Query) :
    ((search q).run s).1 = (s.gathered q).map (Composite.collect s.machine.fs q) := by
  obtain ⟨hsame, -⟩ := listSources_run (s.searched q) s
  set t := ((listSources (s.searched q)).run s).2
  have hrun : ((search q).run s).1 =
      (Composite.untilGap (roundRobin (((listSources (s.searched q)).run s).1.map Found.items ++
        [t.workspace.list t.machine.toSurroundings (s.searchedRoots q)]))).map
          (Composite.collect t.machine.fs q) := rfl
  rw [hrun, hsame.workspace, hsame.machine, gathered]

/-- What a search gathers is an interleaving of what its sources and roots report. -/
theorem gathered_interleaving {s : Session} {q : Query} {found : List EnvRecord}
    (h : s.gathered q = some found) :
    Interleaving (s.streams q) found := by
  obtain ⟨-, hreports⟩ := listSources_run (s.searched q) s
  have hall := Composite.untilGap_eq_some h
  have hinter := roundRobin_interleaving (((listSources (s.searched q)).run s).1.map Found.items ++
    [s.workspace.list s.machine.toSurroundings (s.searchedRoots q)])
  rw [hall] at hinter
  rcases hreports with ⟨f, hf, hbreak⟩ | hreports
  · -- a gap among the items would have ended the search
    have hgap : none ∈ found.map some :=
      hinter.mem_of_mem (by simp only [List.mem_append, List.mem_map]; exact Or.inl ⟨f, hf, rfl⟩)
        (Found.items_of_breaksAtOnce hbreak)
    simp at hgap
  · have hrecords := hinter.filterMap fun item => item
    rw [hreports] at hrecords
    simpa [streams, Found.filterMap_items, Function.comp_def] using hrecords

/-- A search that comes to an end joins an interleaving of what its sources and roots report. -/
theorem search_eq_collect (s : Session) (q : Query) {es : List EnvRecord}
    (h : ((search q).run s).1 = some es) :
    ∃ found, Interleaving (s.streams q) found ∧ es = Composite.collect s.machine.fs q found := by
  rw [search_run_result, Option.map_eq_some_iff] at h
  obtain ⟨found, hfound, rfl⟩ := h
  exact ⟨found, gathered_interleaving hfound, rfl⟩

end Session

/-- **Searches are sound and complete.** Whatever the query, the file system, the reports of the
sources and their interleaving: no position out of bounds is looked up, every record of the answer
is of a wanted kind, leads to a file and has an allowed place, and every report that passes the
filters is covered by a record. The search of a session joins one such interleaving. -/
theorem Composite.search_answers_query (fs : FileSystem) (q : Query) :
    (∀ (streams : List (List EnvRecord)) (found : List EnvRecord), Interleaving streams found →
      InBounds fs q found ∧ Answers fs q streams (collect fs q found)) ∧
    ∀ (s : Session) (es : List EnvRecord), s.machine.fs = fs →
      ((Session.search q).run s).1 = some es →
      Answers fs q (s.streams q) es := by
  refine ⟨fun streams found h => ⟨inBounds fs q found, collect_answers h⟩, ?_⟩
  rintro s es rfl hsearch
  obtain ⟨found, hinter, rfl⟩ := s.search_eq_collect q hsearch
  exact collect_answers hinter

/-- A session over a machine with one interpreter and a link to it, with one source. -/
def linkedSession (reports : List EnvRecord) : Session :=
  .new ⟨⟨EnvSet.linkedPython, ⟨none, []⟩⟩, ⟨fun _ => .error (.commandNotFound "" none)⟩,
    fun _ => none, defaultTimeout⟩ none ⟨0, 0⟩ .inMemory
      [.fixed ⟨reports, none, fun _ => none, false⟩] (.new false []) [] false

/-- A report of no root and one of the wanted root, joined in both ways. -/
theorem Composite.search_answers_query_linked :
    let link := (EnvRecord.new ⟨"/usr/bin/python3"⟩ .system).withSource .knownPath
    let direct := { (EnvRecord.new ⟨"/usr/bin/./python3.11"⟩ .conda).withSource .conda with
      searchLocation := some ⟨"/project"⟩ }
    let q := Query.forRoots [⟨"/project/."⟩] true
    (Interleaving [[link], [direct]] [direct, link] ∧
      Answers EnvSet.linkedPython q [[link], [direct]] [direct.merge link]) ∧
    (((Session.search q).run (linkedSession [link, direct])).1 = some [link.merge direct] ∧
      Answers EnvSet.linkedPython q ((linkedSession [link, direct]).streams q)
        [link.merge direct]) := by
  intro link direct q
  have hinter : Interleaving [[link], [direct]] [direct, link] :=
    @Interleaving.take _ [[link]] [] direct [] [link]
      (@Interleaving.take _ [] [[]] link [] [] (.done (by simp)))
  have hjoined : collect EnvSet.linkedPython q [direct, link] = [direct.merge link] := by
    decide +kernel
  have hfound : ((Session.search q).run (linkedSession [link, direct])).1 =
      some [link.merge direct] := by
    decide +kernel
  obtain ⟨hcollect, hsession⟩ := search_answers_query EnvSet.linkedPython q
  exact ⟨⟨hinter, hjoined ▸ (hcollect _ _ hinter).2⟩, hfound, hsession _ _ rfl hfound⟩

end EnvDiscovery
