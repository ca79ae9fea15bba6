import EnvDiscovery.Proofs.Freshness

/-!
**Listings and their announcements.**

Interpreters are listed again and again, while the machine changes between one listing and the next.
Every listing is announced at its start and at its end, also one whose search breaks off. Such a
listing is empty and nothing is learnt from it. An entry is marked as known if its executable was
known before the listing.

Main definitions:
* `ListingRequest` — a listing that is asked for, with the machine at that time;
* `ListingRequest.BreaksOff`, `ListingRequest.Finds` — what the search of a listing comes to;
* `ListingRequest.Answered` — what a listing gives and leaves behind;
* `ListingRequest.AllAnswered` — the same for one listing after the other.

Main results:
* `Session.gathered_eq_none_iff` — a search breaks off if and only if one of its sources does;
* `Session.environments_run_eq` — what a search that comes to its end gives and leaves in the store;
* `ListingRequest.answered` — one listing;
* `ListingRequest.listings_are_announced` — **any run of listings**.
-/

namespace EnvDiscovery

/-! ### Searches that break off -/

theorem Interleaving.mem_iff {α : Type} {lists : List (List α)} {xs : List α}
    (h : Interleaving lists xs) {x : α} :
    x ∈ xs ↔ ∃ l ∈ lists, x ∈ l := by
  refine ⟨fun hx => ?_, fun ⟨l, hl, hx⟩ => h.mem_of_mem hl hx⟩
  induction h with
  | done => simp at hx
  | @take before after y l rest _ ih =>
      rcases List.mem_cons.1 hx with rfl | hx
      · exact ⟨x :: l, by simp, List.mem_cons_self⟩
      · obtain ⟨l', hl', hx'⟩ := ih hx
        rcases List.mem_append.1 hl' with hl' | hl'
        · exact ⟨l', by simp [hl'], hx'⟩
        · rcases List.mem_cons.1 hl' with rfl | hl'
          · exact ⟨y :: l', by simp, List.mem_cons_of_mem y hx'⟩
          · exact ⟨l', by simp [hl'], hx'⟩

theorem Composite.untilGap_eq_none_iff {items : List (Option EnvRecord)} :
    untilGap items = none ↔ none ∈ items := by
  induction items with
  | nil => simp [untilGap]
  | cons item items ih =>
      cases item with
      | none => simp [untilGap]
      | some e => simp [untilGap, ih]

theorem Found.none_mem_items_iff (f : Found) : none ∈ f.items ↔ f.breaksOff = true := by
  cases h : f.breaksOff <;> simp [Found.items, h]

namespace Session

/-- Whatever a search lists is the report of one of its sources. -/
theorem exists_of_mem_listSources {ps : List Nat} {s : Session} {f : Found}
    (h : f ∈ ((listSources ps).run s).1) : ∃ i ∈ ps, s.report i = f := by
  induction ps generalizing s with
  | nil => cases h
  | cons i ps ih =>
      obtain ⟨hvalue, hsame⟩ := listSource_run s i
      rw [listSources_cons_run] at h
      split at h
      · rw [List.mem_singleton] at h
        exact ⟨i, List.mem_cons_self, hvalue.symm.trans h.symm⟩
      · rcases List.mem_cons.1 h with h | h
        · exact ⟨i, List.mem_cons_self, hvalue.symm.trans h.symm⟩
        · obtain ⟨j, hj, hf⟩ := ih h
          exact ⟨j, List.mem_cons_of_mem i hj, (hsame.report j).symm.trans hf⟩

/-- A query searches a root with a source that breaks off. -/
def RootBreaksOff (s : Session) (q : Query) : Prop :=
  ∃ number ∈ s.searchedRoots q, ∃ r ∈ s.workspace.root? number, ∃ x ∈ r.sources,
    (x.watched.locator.found s.machine.toSurroundings).breaksOff = true

/-- The roots leave a gap if and only if one of their sources breaks off. -/
theorem none_mem_list_iff (s : Session) (q : Query) :
    none ∈ s.workspace.list s.machine.toSurroundings (s.searchedRoots q) ↔ s.RootBreaksOff q := by
  rw [Workspace.list, (roundRobin_interleaving _).mem_iff]
  simp only [List.mem_map, List.mem_flatMap, List.mem_filterMap, Workspace.listRoot]
  constructor
  · rintro ⟨-, ⟨-, ⟨r, ⟨number, hnumber, hr⟩, x, hx, rfl⟩, rfl⟩, hgap⟩
    exact ⟨number, hnumber, r, hr, x, hx, (Found.none_mem_items_iff _).1 hgap⟩
  · rintro ⟨number, hnumber, r, hr, x, hx, hbreaks⟩
    exact ⟨_, ⟨_, ⟨r, ⟨number, hnumber, hr⟩, x, hx, rfl⟩, rfl⟩,
      (Found.none_mem_items_iff _).2 hbreaks⟩

/-- **A search breaks off** if and only if one of its sources does, be it one of a root. -/
theorem gathered_eq_none_iff (s : Session) (q : Query) :
    s.gathered q = none ↔ (∃ i ∈ s.searched q, (s.report i).breaksOff = true) ∨
    s.RootBreaksOff q := by
  obtain ⟨-, hreports⟩ := listSources_run (s.searched q) s
  rw [gathered, Composite.untilGap_eq_none_iff, (roundRobin_interleaving _).mem_iff]
  constructor
  · rintro ⟨l, hl, hgap⟩
    rcases List.mem_append.1 hl with hl | hl
    · obtain ⟨f, hf, rfl⟩ := List.mem_map.1 hl
      obtain ⟨i, hi, rfl⟩ := exists_of_mem_listSources hf
      exact .inl ⟨i, hi, (Found.none_mem_items_iff _).1 hgap⟩
    · rw [List.mem_singleton] at hl
      exact .inr ((s.none_mem_list_iff q).1 (hl ▸ hgap))
  · rintro (⟨i, hi, hbreaks⟩ | hroot)
    · rcases hreports with ⟨f, hf, hatOnce⟩ | hreports
      · exact ⟨f.items, List.mem_append_left _ (List.mem_map_of_mem hf),
          Found.items_of_breaksAtOnce hatOnce⟩
      · refine ⟨(s.report i).items, List.mem_append_left _ (List.mem_map_of_mem ?_),
          (Found.none_mem_items_iff _).2 hbreaks⟩
        rw [hreports]
        exact List.mem_map_of_mem hi
    · exact ⟨_, List.mem_append_right _ (List.mem_singleton_self _),
        (s.none_mem_list_iff q).2 hroot⟩

theorem listSources_run_news (ps : List Nat) (s : Session) :
    ((listSources ps).run s).2.news = s.news := by
  obtain ⟨_, _, _, hrun⟩ := listSources_run_frame ps s
  rw [hrun]

/-- The records that a search has joined, completed. -/
def completion (s : Session) (q : Query) (found : List EnvRecord) : Stored (List EnvRecord) :=
  (Composite.completeAll s.resolver s.store (Composite.collect s.machine.fs q found)).value

/-- **A listing of environments** completes what its search gathers; one that breaks off changes
nothing that is stored or known, and neither makes news. -/
theorem environments_run_eq (s : Session) (q : Query) :
    ((environments q).run s).1 = (s.gathered q).map (fun found => (s.completion q found).result) ∧
    ((environments q).run s).2.store = (s.gathered q).elim s.store
      (fun found => (s.completion q found).store) ∧
    ((environments q).run s).2.news = s.news := by
  have hbooks : SameBooks s ((search q).run s).2 := listSources_run_books (s.searched q) s
  have hnews : ((search q).run s).2.news = s.news := listSources_run_news (s.searched q) s
  have hresult := search_run_result s q
  rw [environments, StateT.run_bind]
  -- the search is forgotten here: unfolding it would run all sources
  generalize (search q).run s = out at hbooks hnews hresult ⊢
  obtain ⟨answer, t⟩ := out
  obtain ⟨hresolver, hstore, -⟩ := hbooks
  cases hgathered : s.gathered q with
  | none =>
      rw [hgathered, Option.map_none] at hresult
      subst hresult
      exact ⟨rfl, hstore, hnews⟩
  | some found =>
      rw [hgathered, Option.map_some] at hresult
      subst hresult
      simp only [Option.map_some, Option.elim_some, completion, ← hresolver, ← hstore]
      exact ⟨rfl, rfl, hnews⟩

end Session

theorem Known.contains_iff {k : Known} {executable : Path} :
    k.contains executable = true ↔ ∃ e ∈ k.records, e.path.key = executable.key := by
  simp only [contains, List.any_eq_true, beq_iff_eq, (records_perm k).mem_iff, List.mem_map]
  constructor
  · rintro ⟨p, hp, hkey⟩
    exact ⟨p.2, ⟨p, hp, rfl⟩, hkey⟩
  · rintro ⟨e, ⟨p, hp, rfl⟩, hkey⟩
    exact ⟨p, hp, hkey⟩

/-! ### Listings -/

/-- A listing that is asked for, with the machine and the time as they are then. -/
structure ListingRequest where
  machine : Machine
  now : Timestamp
  resource : Option Path
  onlyKnown : Bool
  sources : Option (List EnvSource)

namespace ListingRequest

/-- Answers the request. -/
def answer (r : ListingRequest) : SessionM (List Listing.Entry) := do
  modify fun s => { s with machine := r.machine, now := r.now }
  Session.interpreters r.resource r.onlyKnown r.sources

/-- The session when the listing begins. -/
def start (r : ListingRequest) (s : Session) : Session :=
  { s with machine := r.machine, now := r.now, news := s.news ++ [.refresh .refreshing] }

/-- The query of the listing. -/
def query (r : ListingRequest) (s : Session) : Query :=
  (r.start s).queryFor r.resource

/-- The listing searches a source that breaks off, of the machine or of a root. -/
def BreaksOff (r : ListingRequest) (s : Session) : Prop :=
  r.onlyKnown = false ∧
    ((∃ i ∈ (r.start s).searched (r.query s), ((r.start s).report i).breaksOff = true) ∨
      (r.start s).RootBreaksOff (r.query s))

/-- The records that the listing is about, and what is known after it: what was known before, or
what the search gathers, completed and remembered. -/
def Finds (r : ListingRequest) (s : Session) (es : List EnvRecord) (known : Known) : Prop :=
  (r.onlyKnown = true ∧ es = s.known.records ∧ known = s.known) ∨
    (r.onlyKnown = false ∧ known = s.known.remember (r.query s) es ∧
      ∃ found, (r.start s).gathered (r.query s) = some found ∧
        es = ((r.start s).completion (r.query s) found).result)

/-- What the listing gives in a session, and what the session is after it. -/
structure Answered (s : Session) (r : ListingRequest) (entries : List Listing.Entry)
    (s' : Session) : Prop where
  announced : s'.news = s.news ++ [.refresh .refreshing, .refresh .refreshed]
  of_breaksOff : r.BreaksOff s → entries = [] ∧ s'.known = s.known
  of_not_breaksOff : ¬r.BreaksOff s → ∃ es, r.Finds s es s'.known ∧
    entries = (es.filter (Session.hasSource r.sources)).map fun e =>
      Listing.entryOf e (s.known.contains e.path)
  cached_iff : ∀ x ∈ entries, (x.cached = true ↔ ∃ e ∈ s.known.records, e.path.key = x.path.key)
  cached_of_onlyKnown : r.onlyKnown = true → ∀ x ∈ entries, x.cached = true

theorem cached_entryOf_iff {known : Known} {es : List EnvRecord} {x : Listing.Entry}
    (h : x ∈ es.map fun e => Listing.entryOf e (known.contains e.path)) :
    x.cached = true ↔ ∃ e ∈ known.records, e.path.key = x.path.key := by
  obtain ⟨e, -, rfl⟩ := List.mem_map.1 h
  exact Known.contains_iff

/-- **One listing.** -/
theorem answered (r : ListingRequest) (s : Session) :
    Answered s r (r.answer.run s).1 (r.answer.run s).2 := by
  obtain ⟨machine, now, resource, onlyKnown, sources⟩ := r
  cases onlyKnown with
  | true =>
      refine ⟨?_, fun h => absurd h.1.symm Bool.false_ne_true,
        fun _ => ⟨s.known.records, .inl ⟨rfl, rfl, rfl⟩, rfl⟩, ?_, ?_⟩
      · exact List.append_assoc s.news [News.refresh .refreshing] [News.refresh .refreshed]
      · exact fun x hx => cached_entryOf_iff hx
      · intro _ x hx
        obtain ⟨e, he, rfl⟩ := List.mem_map.1 hx
        exact Known.contains_iff.2 ⟨e, List.mem_of_mem_filter he, rfl⟩
  | false =>
      set r : ListingRequest := ⟨machine, now, resource, false, sources⟩
      obtain ⟨hresult, -, hnews⟩ := Session.environments_run_eq (r.start s) (r.query s)
      obtain ⟨-, hknown⟩ := Session.environments_run_known (r.start s) (r.query s)
      have hbreaks := Session.gathered_eq_none_iff (r.start s) (r.query s)
      have hrun : r.answer.run s =
          ((((Session.environments (r.query s)).run (r.start s)).1.getD []).filter
            (Session.hasSource sources) |>.map
            fun e => Listing.entryOf e (s.known.contains e.path),
          { ((Session.environments (r.query s)).run (r.start s)).2 with
            news := ((Session.environments (r.query s)).run (r.start s)).2.news ++
              [.refresh .refreshed] }) := rfl
      generalize (Session.environments (r.query s)).run (r.start s) =
        out at hresult hnews hknown hrun
      obtain ⟨answer, t⟩ := out
      rw [hrun]
      refine ⟨?_, fun h => ?_, fun h => ?_, fun x hx => cached_entryOf_iff hx,
        fun h => absurd h Bool.false_ne_true⟩
      · rw [hnews]
        exact List.append_assoc s.news [News.refresh .refreshing] [News.refresh .refreshed]
      · rw [hbreaks.2 h.2, Option.map_none] at hresult
        subst hresult
        exact ⟨rfl, hknown⟩
      · cases hgathered : (r.start s).gathered (r.query s) with
        | none => exact absurd ⟨rfl, hbreaks.1 hgathered⟩ h
        | some found =>
            rw [hgathered, Option.map_some] at hresult
            subst hresult
            exact ⟨_, .inr ⟨rfl, hknown, found, hgathered, rfl⟩, rfl⟩

/-- One listing after the other. -/
inductive AllAnswered : Session → List ListingRequest → List (List Listing.Entry) → Session →
    Prop where
  | nil {s : Session} : AllAnswered s [] [] s
  | cons {s s' s'' : Session} {r : ListingRequest} {entries : List Listing.Entry}
      {rs : List ListingRequest}
      {answers : List (List Listing.Entry)} (first : Answered s r entries s')
      (rest : AllAnswered s' rs answers s'') :
      AllAnswered s (r :: rs) (entries :: answers) s''

theorem allAnswered (rs : List ListingRequest) (s : Session) :
    AllAnswered s rs ((rs.mapM answer).run s).1 ((rs.mapM answer).run s).2 := by
  induction rs generalizing s with
  | nil => exact .nil
  | cons r rs ih =>
      rw [List.mapM_cons]
      exact .cons (r.answered s) (ih (r.answer.run s).2)

theorem AllAnswered.news_eq {s s' : Session} {rs : List ListingRequest}
    {answers : List (List Listing.Entry)} (h : AllAnswered s rs answers s') :
    s'.news = s.news ++ rs.flatMap fun _ => [.refresh .refreshing, .refresh .refreshed] := by
  induction h with
  | nil => simp
  | cons first _ ih => rw [ih, first.announced, List.flatMap_cons, List.append_assoc]

/-- **Listings are announced**, one pair for each of them, and their entries say what was known
before. Whatever the session, and however the machine changes between the listings: one whose search
breaks off is empty and leaves what is known as it is; all others show what they find and remember
it; and an entry is marked as known if and only if a record with the key of its executable was known
when the listing began, so all entries of a listing of what is known are. -/
theorem listings_are_announced (s : Session) (rs : List ListingRequest) :
    ((rs.mapM answer).run s).2.news = s.news ++ (rs.flatMap fun _ =>
      [.refresh .refreshing, .refresh .refreshed]) ∧
      AllAnswered s rs ((rs.mapM answer).run s).1 ((rs.mapM answer).run s).2 :=
  ⟨(allAnswered rs s).news_eq, allAnswered rs s⟩

end ListingRequest

end EnvDiscovery
