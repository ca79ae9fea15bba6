import EnvDiscovery.Proofs.Resolver
import EnvDiscovery.Proofs.Search

/-!
**What a listing leaves behind.**

A listing joins the reports of its sources, has the incomplete records completed by their
interpreters, and remembers the outcome under the keys of the executables. On a coherent file system
no two records of a listing have the same key, and completing a record never moves its executable.
So each complete record is found again under its own path, and is given at once.

Main definitions:
* `Composite.Completion` — the records of a listing, whatever the interpreters answer and in
  whatever order.

Main results:
* `Known.get?_remember` — what is remembered of a listing;
* `Composite.nodup_keys_collect` — joined records have different keys;
* `Composite.completeAll_completion` — completing records one after the other is a completion;
* `Composite.listed_records_are_found_again` — **a complete record of a listing resolves to
  itself**.
-/

namespace EnvDiscovery

/-! ### Known records -/

namespace Known

@[simp] theorem get?_insert_self (k : Known) (key : String) (e : EnvRecord) :
    (k.insert key e).get? key = some e := by
  rw [get?, insert, List.lookup_append, lookup_filter_self, Option.none_or, List.lookup_cons_self]

theorem get?_insert_of_ne (k : Known) {key other : String} (h : other ≠ key) (e : EnvRecord) :
    (k.insert key e).get? other = k.get? other := by
  have hne : (other == key) = false := by simpa using h
  rw [get?, insert, List.lookup_append, lookup_filter_ne h, List.lookup_cons, hne, List.lookup_nil,
    Option.or_none, get?]

theorem insertAll_cons (k : Known) (e : EnvRecord) (es : List EnvRecord) :
    k.insertAll (e :: es) = (k.insert e.path.key e).insertAll es := rfl

theorem get?_insertAll_of_notMem {key : String} {es : List EnvRecord}
    (h : key ∉ es.map (·.path.key)) (k : Known) :
    (k.insertAll es).get? key = k.get? key := by
  induction es generalizing k with
  | nil => rfl
  | cons e es ih =>
      rw [List.map_cons, List.mem_cons, not_or] at h
      rw [insertAll_cons, ih h.2, get?_insert_of_ne k h.1]

/-- Records with different keys are all found again. -/
theorem get?_insertAll_of_mem {e : EnvRecord} {es : List EnvRecord}
    (hkeys : (es.map (·.path.key)).Nodup) (he : e ∈ es) (k : Known) :
    (k.insertAll es).get? e.path.key = some e := by
  induction es generalizing k with
  | nil => simp at he
  | cons d es ih =>
      rw [List.map_cons, List.nodup_cons] at hkeys
      rw [insertAll_cons]
      rcases List.mem_cons.1 he with rfl | he
      · rw [get?_insertAll_of_notMem hkeys.1, get?_insert_self]
      · exact ih hkeys.2 he _

/-- A listing is remembered whether or not it replaces what was known. -/
theorem get?_remember {e : EnvRecord} {es : List EnvRecord} (hkeys : (es.map (·.path.key)).Nodup)
    (he : e ∈ es) (k : Known) (q : Query) : (k.remember q es).get? e.path.key = some e :=
  get?_insertAll_of_mem hkeys he _

end Known

/-! ### Completing records -/

@[simp] theorem EnvRecord.complete_path (e : EnvRecord) (info : InterpreterInfo) :
    (e.complete info).path = e.path :=
  rfl

@[simp] theorem Resolver.withTimes_path (fs : FileSystem) (e : EnvRecord) :
    (withTimes fs e).path = e.path := by
  unfold withTimes
  split <;> rfl

namespace Composite

/-- `Completion fs found es` says that `es` are the records `found`, in order: a complete record as
it is, any other one completed by what its interpreter says, or left out. -/
inductive Completion (fs : FileSystem) : List EnvRecord → List EnvRecord → Prop where
  /-- All records are done. -/
  | nil : Completion fs [] []
  /-- A complete record stays. -/
  | keep {e : EnvRecord} {found es : List EnvRecord} (he : e.isResolved = true)
      (h : Completion fs found es) :
      Completion fs (e :: found) (e :: es)
  /-- The interpreter of an incomplete record answers. -/
  | complete {e : EnvRecord} {found es : List EnvRecord} (he : e.isResolved = false)
      (info : InterpreterInfo)
      (h : Completion fs found es) :
      Completion fs (e :: found) (Resolver.withTimes fs (e.complete info) :: es)
  /-- The interpreter of an incomplete record fails or says nothing. -/
  | drop {e : EnvRecord} {found es : List EnvRecord} (he : e.isResolved = false)
      (h : Completion fs found es) :
      Completion fs (e :: found) es

variable {fs : FileSystem} {q : Query} {found es : List EnvRecord}

/-- No executable moves and none comes in. -/
theorem Completion.paths_sublist (h : Completion fs found es) :
    (es.map EnvRecord.path).Sublist (found.map EnvRecord.path) := by
  induction h with
  | nil => exact .slnil
  | keep _ _ ih => exact ih.cons_cons _
  | complete _ info _ ih =>
      rw [List.map_cons, Resolver.withTimes_path, EnvRecord.complete_path]
      exact ih.cons_cons _
  | drop _ _ ih => exact ih.cons _

/-- A record is completed as its interpreter answers. -/
theorem completed_result (r : Resolver) (store : Store) (e : EnvRecord) :
    (e.isResolved = true ∧ (completed r store e).value.result = some e) ∨
      (e.isResolved = false ∧
        ((completed r store e).value.result = none ∨
          ∃ info, (completed r store e).value.result =
            some (Resolver.withTimes r.machine.fs (e.complete info)))) := by
  cases he : e.isResolved with
  | true => exact .inl ⟨rfl, by simp [completed, he, pure, Traced.pure]⟩
  | false =>
      refine .inr ⟨rfl, ?_⟩
      have hrecord := r.record_result store e
      simp only [completed, he, bind, Traced.bind]
      generalize r.record store e = out at hrecord ⊢
      generalize (r.interpreter store e.path).value.result = answer at hrecord
      obtain ⟨⟨result, after⟩, calls⟩ := out
      obtain rfl : result = _ := hrecord
      rcases answer with f | _ | info
      · exact .inl rfl
      · exact .inl rfl
      · exact .inr ⟨info, rfl⟩

theorem completeAll_cons_result (r : Resolver) (store : Store) (e : EnvRecord)
    (found : List EnvRecord) :
    (completeAll r store (e :: found)).value.result =
      (completed r store e).value.result.toList ++
        (completeAll r (completed r store e).value.store found).value.result := rfl

/-- Completing records one after the other is a completion. -/
theorem completeAll_completion (r : Resolver) (store : Store) (found : List EnvRecord) :
    Completion r.machine.fs found (completeAll r store found).value.result := by
  induction found generalizing store with
  | nil => exact .nil
  | cons e found ih =>
      rw [completeAll_cons_result]
      rcases completed_result r store e with ⟨he, hresult⟩ | ⟨he, hresult | ⟨info, hresult⟩⟩
      · rw [hresult]
        exact .keep he (ih _)
      · rw [hresult]
        exact .drop he (ih _)
      · rw [hresult]
        exact .complete he info (ih _)

/-! ### Keys of a listing -/

/-- **Joined records have different keys** on a coherent file system: records with one key lead to
one file, and were merged. -/
theorem nodup_keys_collect (hc : Coherent fs.realPath) (q : Query) (found : List EnvRecord) :
    ((collect fs q found).map (·.path.key)).Nodup := by
  have hfiles : ((collect fs q found).map (EnvSet.identity fs.realPath)).Nodup := by
    rw [collect, (EnvSet.represents_ofList hc _).map_identity]
    exact EnvSet.nodup_identities _ _
  rw [List.Nodup, List.pairwise_map] at hfiles ⊢
  refine hfiles.imp fun {d e} hne hkey => hne ?_
  exact EnvSet.identity_eq_of_common_key hc (EnvSet.mem_keysOf.2 (.inl rfl))
    (EnvSet.mem_keysOf.2 (.inl hkey))

theorem Completion.nodup_keys (h : Completion fs (collect fs q found) es)
    (hc : Coherent fs.realPath) :
    (es.map (·.path.key)).Nodup := by
  have hkeys : (es.map (·.path.key)).Sublist ((collect fs q found).map (·.path.key)) := by
    simpa [Function.comp_def] using h.paths_sublist.map Path.key
  exact (nodup_keys_collect hc q found).sublist hkeys

/-- The executable of every listed record is a file. -/
theorem Completion.isFile (h : Completion fs (collect fs q found) es) {e : EnvRecord}
    (he : e ∈ es) :
    fs.isFile e.path = true := by
  have hpath : e.path ∈ (collect fs q found).map EnvRecord.path :=
    h.paths_sublist.subset (List.mem_map_of_mem he)
  obtain ⟨r, hr, hsame⟩ := List.mem_map.1 hpath
  rw [← hsame]
  exact collect_forall (fun _ _ => origin_merge (P := fun _ p => fs.isFile p = true))
    (fun _ hadmits => (admits_iff.1 hadmits).2.2) r hr

/-! ### Resolving a listed record -/

/-- What is known and complete is given at once: nothing is run, stored or learnt. -/
theorem resolve_of_known {r : Resolver} {known : Known} (ref : EnvRef) {e : EnvRecord}
    (hfile : r.machine.fs.isFile ref.executable = true)
    (hknown : known.get? ref.executable.key = some e) (he : e.isResolved = true)
    (sources : List Locator) (store : Store) :
    resolve r sources store known ref = ⟨⟨.ok (some e), store, known⟩, []⟩ := by
  have hfound : (known.get? ref.executable.key).filter (·.isResolved) = some e := by
    rw [hknown, Option.filter_some, if_pos he]
  simp only [resolve, hfile, hfound]
  rfl

end Composite

/-! ### Sessions -/

namespace Session

theorem search_run_state (s : Session) (q : Query) :
    ((search q).run s).2 = ((listSources (s.searched q)).run s).2 := rfl

/-- A listing that comes to an end completes the records of its search and remembers the outcome. -/
theorem environments_run {s s' : Session} {q : Query} {es : List EnvRecord}
    (h : (environments q).run s = (some es, s')) :
    s'.machine = s.machine ∧ (∃ known : Known, s'.known = known.remember q es) ∧
      ∃ found, Composite.Completion s.machine.fs (Composite.collect s.machine.fs q found) es := by
  have hmachine : ((search q).run s).2.machine = s.machine := by
    rw [search_run_state]
    exact (listSources_run (s.searched q) s).1.machine
  have hjoined : ∀ joined, ((search q).run s).1 = some joined →
      ∃ found, Interleaving (s.streams q) found ∧ joined = Composite.collect s.machine.fs q found :=
    fun _ => s.search_eq_collect q
  rw [environments, StateT.run_bind] at h
  generalize (search q).run s = out at h hmachine hjoined
  obtain ⟨_ | joined, t⟩ := out
  · cases h
  · obtain ⟨found, -, rfl⟩ := hjoined joined rfl
    have hcompleted :=
      Composite.completeAll_completion t.resolver t.store (Composite.collect s.machine.fs q found)
    generalize hall : Composite.completeAll t.resolver t.store
      (Composite.collect s.machine.fs q found) = all
      at hcompleted
    rw [show t.resolver.machine = s.machine from hmachine] at hcompleted
    have hend : (some all.value.result, { t with
        calls := t.calls ++ all.calls
        store := all.value.store
        known := t.known.remember q all.value.result }) = (some es, s') := by
      rw [← hall]
      exact h
    obtain ⟨rfl, rfl⟩ : all.value.result = es ∧ _ = s' := by simpa using hend
    exact ⟨hmachine, ⟨t.known, rfl⟩, found, hcompleted⟩

/-- Resolving what is known and complete leaves a session as it is. -/
theorem resolve_run_of_known {s : Session} (ref : EnvRef) {e : EnvRecord}
    (hfile : s.machine.fs.isFile ref.executable = true)
    (hknown : s.known.get? ref.executable.key = some e) (he : e.isResolved = true) :
    (resolve ref).run s = (.ok (some e), s) := by
  have hresolve :=
    Composite.resolve_of_known (r := s.resolver) ref hfile hknown he s.locators s.store
  have hrun : (resolve ref).run s =
      ((Composite.resolve s.resolver s.locators s.store s.known ref).value.result, { s with
        calls := s.calls ++ (Composite.resolve s.resolver s.locators s.store s.known ref).calls
        store := (Composite.resolve s.resolver s.locators s.store s.known ref).value.store
        known := (Composite.resolve s.resolver s.locators s.store s.known ref).value.known }) := rfl
  rw [hrun, hresolve, List.append_nil]

end Session

/-- **A complete record of a listing resolves to itself.** On a coherent file system, whatever was
known before, whatever the sources report for a query and whatever the interpreters answer: the
records of the listing have different keys, and each complete one is found again under its path,
without a call and with everything stored and known left as it is. The listings of a session are
such listings. -/
theorem Composite.listed_records_are_found_again (fs : FileSystem) (hc : Coherent fs.realPath)
    (q : Query) :
    (∀ (found es : List EnvRecord), Completion fs (collect fs q found) es →
      (es.map (·.path.key)).Nodup ∧
        ∀ (r : Resolver) (sources : List Locator) (store : Store) (known : Known),
          r.machine.fs = fs →
          ∀ e ∈ es, e.isResolved = true →
            resolve r sources store (known.remember q es) (.path e.path) =
              ⟨⟨.ok (some e), store, known.remember q es⟩, []⟩) ∧
    ∀ (s s' : Session) (es : List EnvRecord), s.machine.fs = fs →
      (Session.environments q).run s = (some es, s') →
        (es.map (·.path.key)).Nodup ∧
          ∀ e ∈ es, e.isResolved = true → (Session.resolve (.path e.path)).run s' =
            (.ok (some e), s') := by
  constructor
  · intro found es h
    refine ⟨h.nodup_keys hc, ?_⟩
    rintro r sources store known rfl e he hresolved
    exact resolve_of_known (.path e.path) (h.isFile he)
      (Known.get?_remember (h.nodup_keys hc) he known q) hresolved
      sources store
  · rintro s s' es rfl hrun
    obtain ⟨hmachine, ⟨known, hknown⟩, found, h⟩ := Session.environments_run hrun
    refine ⟨h.nodup_keys hc, fun e he hresolved => ?_⟩
    refine Session.resolve_run_of_known (.path e.path) ?_ ?_ hresolved
    · rw [hmachine]
      exact h.isFile he
    · rw [hknown]
      exact Known.get?_remember (h.nodup_keys hc) he known q

/-- The link and the interpreter are listed once, and the record is found again under the path of
the interpreter: after the interpreter has answered, and in a session whose source knew
everything. -/
theorem Composite.listed_records_are_found_again_linked :
    let info : InterpreterInfo :=
      ⟨⟨"/usr/bin/python3.11"⟩, ⟨"/usr"⟩, ⟨some 3, some 11, some 4, none, none⟩, .x64⟩
    let link := (EnvRecord.new ⟨"/usr/bin/python3"⟩ .system).withSource .knownPath
    let direct := (EnvRecord.new ⟨"/usr/bin/./python3.11"⟩ .conda).withSource .conda
    let listed := (link.merge direct).complete info
    let s := linkedSession [link, direct.complete info]
    let s' := ((Session.environments .all).run s).2
    (Coherent EnvSet.linkedPython.realPath ∧ listed.isResolved = true ∧
      Completion EnvSet.linkedPython (collect EnvSet.linkedPython .all [link, direct]) [listed] ∧
      resolve s.resolver [] s.store (Known.empty.remember .all [listed]) (.path listed.path) =
        ⟨⟨.ok (some listed), s.store, Known.empty.remember .all [listed]⟩, []⟩) ∧
    (Session.environments .all).run s = (some [listed], s') ∧
      (Session.resolve (.path listed.path)).run s' = (.ok (some listed), s') := by
  intro info link direct listed s s'
  obtain ⟨hlisted, hsession⟩ :=
    listed_records_are_found_again EnvSet.linkedPython EnvSet.coherent_linkedPython .all
  have hresolved : listed.isResolved = true := by decide
  have hcompletion : Completion EnvSet.linkedPython
      (collect EnvSet.linkedPython .all [link, direct]) [listed] := by
    have hjoined : collect EnvSet.linkedPython .all [link, direct] = [link.merge direct] := by
      decide +kernel
    have htimes : Resolver.withTimes EnvSet.linkedPython listed = listed := by decide +kernel
    rw [hjoined, ← htimes]
    exact .complete (by decide) info .nil
  have hfound : ((Session.environments .all).run s).1 = some [listed] := by decide +kernel
  have hrun : (Session.environments .all).run s = (some [listed], s') := by
    rw [← hfound]
    exact (Prod.eta _).symm
  refine ⟨⟨EnvSet.coherent_linkedPython, hresolved, hcompletion, ?_⟩, hrun, ?_⟩
  · exact (hlisted _ _ hcompletion).2 s.resolver [] s.store .empty rfl listed
      (List.mem_singleton_self _) hresolved
  · exact (hsession s s' _ rfl hrun).2 listed (List.mem_singleton_self _) hresolved

end EnvDiscovery
