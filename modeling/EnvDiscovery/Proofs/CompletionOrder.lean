import EnvDiscovery.Proofs.Listings
import EnvDiscovery.Proofs.Overlap

/-!
**The order in which records are completed.**

A listing completes its records one after the other. That is one of the ways in which their
resolutions can go on at the same time, and all of them come to the same end, unless two records
meet in the cache and their executables say different things.

Main definitions:
* `Pool.inOrder` — the steps of one resolution after the other.

Main results:
* `Pool.run_inOrder` — completing records one after the other is one of the runs;
* `Composite.finished_eq` — what all runs come to;
* `Composite.completion_order_is_free` — **the order of the steps does not matter**;
* `Composite.overlap_decides_what_is_listed` — two spellings of one path for which it does.
-/

namespace EnvDiscovery

open Resolution

namespace Pool

/-! ### One after the other -/

/-- Three steps for each of `n` resolutions, from the one at a position on. -/
def inOrder (i n : Nat) : List Nat := (List.range' i n).flatMap fun j => [j, j, j]

theorem step_append (r : Resolver) (before : List Task) (t : Task) (after : List Task)
    (store : Store) :
    Pool.step r ⟨before ++ t :: after, store⟩ before.length =
      ⟨before ++ ⟨t.record, (t.stage.step r t.record store).1⟩ :: after,
        (t.stage.step r t.record store).2⟩ := by
  have ht : (before ++ t :: after)[before.length]? = some t := by simp
  simp only [Pool.step, ht]
  simp

/-- **Three steps complete a record.** -/
theorem run_thrice (r : Resolver) (before : List Task) (e : EnvRecord) (after : List Task)
    (store : Store) :
    Pool.run r ⟨before ++ ⟨e, .fresh⟩ :: after, store⟩
    [before.length, before.length, before.length] =
      ⟨before ++ ⟨e, .done (Composite.completed r store e).value.result⟩ :: after,
        (Composite.completed r store e).value.store⟩ := by
  obtain ⟨hresult, hstore⟩ := Composite.completed_eq r store e
  rw [hresult, hstore]
  simp only [run, List.foldl_cons, List.foldl_nil, step_append]
  cases he : e.isResolved with
  | true => simp [Stage.step, he]
  | false =>
      cases hfile : r.machine.fs.isFile e.path with
      | false =>
          simp [Stage.step, he, hfile, Resolver.answer, Resolver.resolved, Resolver.learns,
            Except.toOption]
      | true =>
          cases hcached : r.cached store e.path with
          | some info =>
              simp [Stage.step, he, hfile, hcached, Resolver.answer_of_cached hfile hcached,
                Resolver.learns]
          | none =>
              rw [Resolver.answer_of_live ⟨hfile, hcached⟩]
              cases hran : (r.ran e.path).toOption.join with
              | none => simp [Stage.step, he, hfile, hcached, hran, Resolver.learns]
              | some info => simp [Stage.step, he, hfile, hcached, hran, Resolver.learns]

/-- **Completing records one after the other** is one of the runs. -/
theorem run_inOrder (r : Resolver) (found : List EnvRecord) (before : List Task) (store : Store)
    (hbefore : ∀ t ∈ before, t.stage.isDone = true) :
    let pool := Pool.run r ⟨before ++ (Pool.start found store).tasks, store⟩
      (inOrder before.length found.length)
    pool.Finished ∧
      pool.results = before.filterMap (·.stage.result) ++
        (Composite.completeAll r store found).value.result ∧
      pool.store = (Composite.completeAll r store found).value.store := by
  induction found generalizing before store with
  | nil =>
      have hrun : Pool.run r ⟨before ++ (Pool.start [] store).tasks, store⟩
        (inOrder before.length 0) =
          ⟨before, store⟩ := by simp [run, inOrder, Pool.start]
      simp only [List.length_nil, hrun]
      exact ⟨hbefore, (List.append_nil _).symm, rfl⟩
  | cons e found ih =>
      -- the first record is completed, and joins those before
      set t : Task := ⟨e, .done (Composite.completed r store e).value.result⟩
      have hschedule : inOrder before.length (found.length + 1) =
          [before.length, before.length, before.length] ++
            inOrder (before ++ [t]).length found.length := by
        simp [inOrder, List.range'_succ]
      have hfirst := run_thrice r before e (Pool.start found store).tasks store
      have hdone : ∀ u ∈ before ++ [t], u.stage.isDone = true := by
        intro u hu
        rcases List.mem_append.1 hu with hu | hu
        · exact hbefore u hu
        · rw [List.mem_singleton.1 hu]
          rfl
      obtain ⟨hfinished, hresults, hstore⟩ :=
        ih (before ++ [t]) (Composite.completed r store e).value.store hdone
      have hrun : Pool.run r ⟨before ++ (Pool.start (e :: found) store).tasks, store⟩
            (inOrder before.length (found.length + 1)) =
          Pool.run r ⟨before ++ [t] ++
            (Pool.start found (Composite.completed r store e).value.store).tasks,
            (Composite.completed r store e).value.store⟩
              (inOrder (before ++ [t]).length found.length) := by
        rw [hschedule, run, List.foldl_append]
        change Pool.run r (Pool.run r ⟨before ++ ⟨e, .fresh⟩ :: (Pool.start found store).tasks,
          store⟩ _) _ = _
        rw [hfirst, List.append_assoc]
        rfl
      simp only [List.length_cons, hrun]
      refine ⟨hfinished, ?_, ?_⟩
      · rw [hresults, Composite.completeAll_cons_result, List.filterMap_append, List.append_assoc]
        cases hresult : (Composite.completed r store e).value.result <;>
          simp [t, Stage.result, hresult]
      · rw [hstore, (Composite.completeAll_cons_run r store e found).1]

theorem exists_finished (r : Resolver) (found : List EnvRecord) (store : Store) :
    ∃ schedule, ((Pool.start found store).run r schedule).Finished ∧
      ((Pool.start found store).run r schedule).results =
        (Composite.completeAll r store found).value.result ∧
      ((Pool.start found store).run r schedule).store =
        (Composite.completeAll r store found).value.store := by
  have hbefore : ∀ t ∈ ([] : List Task), t.stage.isDone = true := by simp
  exact ⟨inOrder 0 found.length, run_inOrder r found [] store hbefore⟩

end Pool

namespace Composite

section Separate

variable {r : Resolver} {store : Store} {found : List EnvRecord}

/-- **Whatever the schedule**: the records become what they become alone, and the store has the same
rows in the end. -/
theorem finished_eq (hsep : r.Separate store found) {schedule : List Nat}
    (hfinished : ((Pool.start found store).run r schedule).Finished) :
    ((Pool.start found store).run r schedule).results =
        found.filterMap (fun e => (completed r store e).value.result) ∧
      ((Pool.start found store).run r schedule).store.Agree
        (completeAll r store found).value.store := by
  have hsound := (Pool.sound_start r store found).run hsep schedule
  obtain ⟨other, hother, -, hstore⟩ := Pool.exists_finished r found store
  have hsound' := (Pool.sound_start r store found).run hsep other
  refine ⟨hsound.results_eq hfinished, ?_⟩
  rw [← hstore]
  exact hsound.ahead.agree hsound'.ahead (hsound.wrote hfinished) (hsound'.wrote hother)

/-- Completing records one after the other makes of each what it becomes alone. -/
theorem completeAll_eq (hsep : r.Separate store found) :
    (completeAll r store found).value.result = found.filterMap fun e =>
      (completed r store e).value.result := by
  obtain ⟨schedule, hfinished, hresults, -⟩ := Pool.exists_finished r found store
  rw [← hresults]
  exact (finished_eq hsep hfinished).1

/-- What a search joins on a coherent file system does not meet in the cache, unless two keys have
one hash. -/
theorem separate_collect (hc : Coherent r.machine.fs.realPath) {q : Query}
    {reports : List EnvRecord} (hkeys : ∀ d ∈ collect r.machine.fs q reports,
      ∀ e ∈ collect r.machine.fs q reports, cacheKey d.path = cacheKey e.path →
      d.path.key = e.path.key) (store : Store) :
    r.Separate store (collect r.machine.fs q reports) := by
  intro p hp p' hp' hkey
  obtain ⟨d, hd, rfl⟩ := List.mem_map.1 hp
  obtain ⟨e, he, rfl⟩ := List.mem_map.1 hp'
  have hd := List.mem_of_mem_filter hd
  have he := List.mem_of_mem_filter he
  obtain rfl : d = e :=
    List.inj_on_of_nodup_map (nodup_keys_collect hc q reports) hd he (hkeys d hd e he hkey)
  exact ⟨rfl, rfl⟩

end Separate

/-- A record that is not complete is listed if its resolution gives a record, and dropped if that
fails, times out or gives nothing. -/
theorem completed_of_record (r : Resolver) (store : Store) (e : EnvRecord) :
    (completed r store e).value.result =
      if e.isResolved then some e else (r.record store e).value.result.toOption.join := by
  rw [(completed_eq r store e).1, r.record_result, (r.interpreter_eq store e.path).1,
    Resolver.answer]
  rcases r.resolved store e.path with f | _ | info <;> rfl

/-- **The order of the steps does not matter.** Two resolutions with different cache keys give the
same in either order and leave the same rows. So the listing of a session is the same for every
schedule of the resolutions that make it, provided that records with one cache key are about one
file and come to the same answer: it has the records in the order of the search, each as its own
resolution completes it, without those whose own resolution fails, times out or gives nothing. On a
coherent file system no two records of a listing have one key, unless two keys have one hash. -/
theorem completion_order_is_free (r : Resolver) (store : Store) :
    (∀ d e : EnvRecord, cacheKey d.path ≠ cacheKey e.path →
      (r.record (r.record store e).value.store d).value.result = (r.record store d).value.result ∧
      (r.record (r.record store d).value.store e).value.result = (r.record store e).value.result ∧
      (r.record (r.record store d).value.store e).value.store.Agree
        (r.record (r.record store e).value.store d).value.store) ∧
    (∀ (s : Session) (q : Query) (reports : List EnvRecord), s.resolver = r → s.store = store →
      s.gathered q = some reports → r.Separate store (collect r.machine.fs q reports) →
      ((Session.environments q).run s).1 =
          some ((collect r.machine.fs q reports).filterMap fun e =>
            (completed r store e).value.result) ∧
        (∃ schedule, ((Pool.start (collect r.machine.fs q reports) store).run r
          schedule).Finished) ∧
        ∀ schedule, ((Pool.start (collect r.machine.fs q reports) store).run r schedule).Finished →
          some ((Pool.start (collect r.machine.fs q reports) store).run r schedule).results =
              ((Session.environments q).run s).1 ∧
            ((Pool.start (collect r.machine.fs q reports) store).run r schedule).store.Agree
              ((Session.environments q).run s).2.store) ∧
    (∀ e : EnvRecord, (completed r store e).value.result =
      if e.isResolved then some e else (r.record store e).value.result.toOption.join) ∧
    (∀ (q : Query) (reports : List EnvRecord), Coherent r.machine.fs.realPath →
      (∀ d ∈ collect r.machine.fs q reports, ∀ e ∈ collect r.machine.fs q reports,
        cacheKey d.path = cacheKey e.path → d.path.key = e.path.key) →
      r.Separate store (collect r.machine.fs q reports)) := by
  refine ⟨fun d e hne => r.records_commute store hne, ?_, completed_of_record r store,
    fun q reports hc hkeys => separate_collect hc hkeys store⟩
  rintro s q reports rfl rfl hgathered hsep
  obtain ⟨hresult, hstore, -⟩ := Session.environments_run_eq s q
  rw [hgathered, Option.map_some, Session.completion] at hresult
  rw [hgathered, Option.elim_some, Session.completion] at hstore
  have hlist := hresult.trans (congrArg some (completeAll_eq hsep))
  obtain ⟨schedule, hfinished, -⟩ :=
    Pool.exists_finished s.resolver (collect s.machine.fs q reports) s.store
  refine ⟨hlist, ⟨schedule, hfinished⟩, fun other hother => ?_⟩
  obtain ⟨hresults, hagree⟩ := finished_eq hsep hother
  rw [hlist, hstore]
  exact ⟨congrArg some hresults, hagree⟩

/-- Two interpreters. A link in the directory of the first leads below the directory of the second,
so the way back from the link spells the first and leads to the second. -/
def bridgedFiles : FileSystem :=
  let places : List (Path × Path) :=
    [(⟨"/a/python"⟩, ⟨"/a/python"⟩), (⟨"/a/link/../python"⟩, ⟨"/real/python"⟩),
      (⟨"/real/python"⟩, ⟨"/real/python"⟩), (⟨"/real/./python"⟩, ⟨"/real/python"⟩)]
  { present := fun p => (places.lookup p).isSome
    lstat := fun _ => none
    stat := fun p => (places.lookup p).map fun _ => ⟨4096, some ⟨1700000000, 0⟩, none, false, false⟩
    listDir := fun _ => []
    readLink := fun _ => none
    realPath := fun p => places.lookup p
    readText := fun _ => none }

/-- A resolver with a cache: the second interpreter reports if it is called by its real path, and
every other call takes too long. -/
def bridged : Resolver :=
  ⟨⟨⟨bridgedFiles, ⟨none, []⟩⟩,
    ⟨fun call => if call.command.program = ⟨"/real/python"⟩ then .ok (reporting "3,11,4")
      else .error (.timeout "python" defaultTimeout)⟩,
    fun _ => none, defaultTimeout⟩, some ⟨defaultExpiry⟩, ⟨1700000001, 0⟩⟩

/-- What the second interpreter says. -/
def bridgedInfo : InterpreterInfo :=
  ⟨⟨"/real/python"⟩, ⟨"/usr"⟩, ⟨some 3, some 11, some 4, none, some ""⟩, .x64⟩

theorem bridged_reports : (bridged.ran ⟨"/real/python"⟩).toOption.join = some bridgedInfo := by
  have hran : bridged.ran ⟨"/real/python"⟩ =
      .ok (Resolver.readReport ⟨"/real/python"⟩ (reporting "3,11,4")) := rfl
  have hreport : Resolver.readReport ⟨"/real/python"⟩ (reporting "3,11,4") = some bridgedInfo := by
    decide +kernel
  rw [hran, hreport]
  rfl

theorem bridged_silent {p : Path} (hp : p ≠ ⟨"/real/python"⟩) :
    (bridged.ran p).toOption.join = none := by
  have hran : bridged.ran p = .error (.timeout "python" defaultTimeout) := by
    simp [Resolver.ran, bridged, Resolver.call, hp, ProcessFailure.isTimeout]
  rw [hran]
  rfl

/-- The second interpreter completes its record, and a record with another path is dropped. -/
theorem completed_bridged {d e : EnvRecord} (hd : d.isResolved = false)
    (hdpath : d.path = ⟨"/real/python"⟩) (he : e.isResolved = false)
    (hepath : e.path ≠ ⟨"/real/python"⟩) (hefile : bridged.machine.fs.isFile e.path = true) :
    (completed bridged .inMemory d).value.result =
        some (Resolver.withTimes bridged.machine.fs (d.complete bridgedInfo)) ∧
      (completed bridged .inMemory e).value.result = none := by
  have hfile : bridged.machine.fs.isFile d.path = true := by rw [hdpath]; rfl
  rw [(completed_eq _ _ d).1, (completed_eq _ _ e).1, hd, he,
    Resolver.answer_of_live (live_inMemory hfile), Resolver.answer_of_live (live_inMemory hefile),
    hdpath, bridged_reports, bridged_silent hepath]
  exact ⟨rfl, rfl⟩

/-- Both look into the cache before the first answer is stored. -/
theorem run_bridged {d e : EnvRecord} (hd : d.isResolved = false)
    (hdpath : d.path = ⟨"/real/python"⟩) (he : e.isResolved = false)
    (hepath : e.path ≠ ⟨"/real/python"⟩) (hefile : bridged.machine.fs.isFile e.path = true) :
    ((Pool.start [d, e] .inMemory).run bridged [0, 1, 0, 1, 0]).Finished ∧
      ((Pool.start [d, e] .inMemory).run bridged [0, 1, 0, 1, 0]).results =
        [Resolver.withTimes bridged.machine.fs (d.complete bridgedInfo)] := by
  have hfile : bridged.machine.fs.isFile d.path = true := by rw [hdpath]; rfl
  have hmiss := (live_inMemory hfile).miss
  have hmiss' := (live_inMemory hefile).miss
  have hran : (bridged.ran d.path).toOption.join = some bridgedInfo := by
    rw [hdpath, bridged_reports]
  have hran' := bridged_silent hepath
  simp [Pool.run, Pool.step, Pool.start, Stage.step, hd, he, hfile, hefile, hmiss, hmiss', hran,
    hran', Pool.Finished, Pool.results, Stage.isDone, Stage.result]

/-- Two interpreters at the same time: one reports, and the other one takes too long and is
dropped. -/
theorem completion_order_is_free_timeout :
    let d := EnvRecord.new ⟨"/real/python"⟩ .system
    let e := EnvRecord.new ⟨"/a/python"⟩ .system
    let s : Session :=
      .new bridged.machine bridged.cache bridged.now .inMemory
        [.fixed ⟨[d, e], none, fun _ => none, false⟩]
      (.new false []) [] false
    let listed := Resolver.withTimes bridged.machine.fs (d.complete bridgedInfo)
    let pool := (Pool.start [d, e] .inMemory).run bridged [0, 1, 0, 1, 0]
    (cacheKey d.path ≠ cacheKey e.path ∧ s.gathered .all = some [d, e] ∧
      bridged.Separate .inMemory [d, e] ∧ pool.Finished) ∧
    (bridged.record (bridged.record .inMemory e).value.store d).value.result =
        (bridged.record .inMemory d).value.result ∧
      ((Session.environments .all).run s).1 = some [listed] ∧
      pool.store.Agree ((Session.environments .all).run s).2.store := by
  intro d e s listed pool
  have hne : cacheKey d.path ≠ cacheKey e.path := by decide +kernel
  have hcollect : collect bridged.machine.fs .all [d, e] = [d, e] := by decide +kernel
  have hgathered : s.gathered .all = some [d, e] := by decide +kernel
  have hsep : bridged.Separate .inMemory [d, e] := by
    have hpaths : openPaths [d, e] = [d.path, e.path] := rfl
    intro p hp q hq hkey
    rw [hpaths, List.mem_cons, List.mem_singleton] at hp hq
    rcases hp with rfl | rfl <;> rcases hq with rfl | rfl
    · exact ⟨rfl, rfl⟩
    · exact absurd hkey hne
    · exact absurd hkey.symm hne
    · exact ⟨rfl, rfl⟩
  have hepath : e.path ≠ ⟨"/real/python"⟩ := by decide
  obtain ⟨hd, he⟩ := completed_bridged (d := d) (e := e) rfl rfl rfl hepath rfl
  obtain ⟨hfinished, -⟩ := run_bridged (d := d) (e := e) rfl rfl rfl hepath rfl
  obtain ⟨hpair, hsession, -, -⟩ := completion_order_is_free bridged .inMemory
  obtain ⟨hlist, -, hall⟩ := hsession s .all [d, e] rfl rfl hgathered (by rw [hcollect]; exact hsep)
  rw [hcollect] at hlist hall
  refine ⟨⟨hne, hgathered, hsep, hfinished⟩, (hpair d e hne).1, ?_, (hall _ hfinished).2⟩
  have hown : ([d, e].filterMap fun e => (completed bridged .inMemory e).value.result) =
      [listed] := by
    simp [hd, he, listed]
  exact hlist.trans (congrArg some hown)

/-- What was stored for a file answers for it under any path with the same key. -/
theorem cached_bridged {p q : Path} (hkey : cacheKey p = cacheKey q)
    (hreal : bridgedFiles.realPath p = bridgedFiles.realPath q) {hash : String}
    (hhash : fileHash bridgedFiles p = some hash) (info : InterpreterInfo) :
    bridged.cached (bridged.remember .inMemory p info) q = some info := by
  have hcache : bridged.cache = some ⟨defaultExpiry⟩ := rfl
  have hnow : DateText.Readable bridged.now := ⟨by decide, by decide, by decide⟩
  obtain ⟨hsame, hkept⟩ := Resolver.remember_spec hcache .inMemory p info
  have hentry := hkept hash hhash rfl
  rw [hkey] at hentry
  have hother : fileHash bridgedFiles q = some hash := by rw [← hhash, fileHash, fileHash, hreal]
  rw [Resolver.cached_eq_get hcache]
  exact (Cache.get_of_hasEntry (by decide) hsame.readable_eq hnow hentry _ _ _).2
    ⟨rfl, hother, by decide⟩

/-- Two spellings of one path are two records of a search, since a report that leads to both
interpreters came between them. The second spelling takes too long when it is called. It is dropped
if it is called before the answer of the first is stored, as it is alone; and it is listed with that
answer if it looks into the cache later, as it does when the records are completed one after the
other. -/
theorem overlap_decides_what_is_listed :
    let d := EnvRecord.new ⟨"/real/python"⟩ .system
    let other := EnvRecord.new ⟨"/a/python"⟩ .system
    let bridge := EnvRecord.new ⟨"/a/link/../python"⟩ .system
    let e := EnvRecord.new ⟨"/real/./python"⟩ .venv
    let found := collect bridged.machine.fs .all [d, other, bridge, e]
    let pool := (Pool.start found .inMemory).run bridged [0, 1, 0, 1, 0]
    found.map (·.path) = [d.path, e.path] ∧ cacheKey d.path = cacheKey e.path ∧
      (pool.Finished ∧ pool.results.map (·.path) = [d.path]) ∧
      (found.filterMap fun e => (completed bridged .inMemory e).value.result).map (·.path) =
        [d.path] ∧
      (completeAll bridged .inMemory found).value.result.map (·.path) = [d.path, e.path] := by
  intro d other bridge e found pool
  obtain ⟨merged, hmerged⟩ : ∃ merged, merged = (other.merge bridge).merge e := ⟨_, rfl⟩
  have hfound : found = [d, merged] := by
    rw [hmerged]
    decide +kernel
  have hpath : merged.path = e.path := by
    rw [hmerged]
    decide +kernel
  have hopen : merged.isResolved = false := by
    rw [hmerged]
    decide +kernel
  have hne : merged.path ≠ ⟨"/real/python"⟩ := by
    rw [hpath]
    decide
  have hfile : bridged.machine.fs.isFile merged.path = true := by
    rw [hpath]
    rfl
  have hkey : cacheKey d.path = cacheKey merged.path := by
    have hkeys : d.path.key = merged.path.key := by
      rw [hpath]
      decide +kernel
    unfold cacheKey
    rw [hkeys]
  obtain ⟨hd, he⟩ := completed_bridged (d := d) rfl rfl hopen hne hfile
  obtain ⟨hfinished, hresults⟩ := run_bridged (d := d) rfl rfl hopen hne hfile
  -- one after the other: the second record finds what the first has stored
  have hsome : (fileHash bridgedFiles d.path).isSome = true := rfl
  obtain ⟨hash, hhash⟩ := Option.isSome_iff_exists.1 hsome
  have hreal : bridgedFiles.realPath d.path = bridgedFiles.realPath merged.path := by
    rw [hpath]
    rfl
  have hcached := cached_bridged hkey hreal hhash bridgedInfo
  have hstore : (completed bridged .inMemory d).value.store =
      bridged.remember .inMemory d.path bridgedInfo := by
    have hlearns : bridged.learns .inMemory d.path = some bridgedInfo :=
      Resolver.learns_eq_some_iff.2 ⟨live_inMemory rfl, bridged_reports⟩
    rw [(completed_eq _ _ d).2, hlearns]
    rfl
  have hlast : (completed bridged (completed bridged .inMemory d).value.store merged).value.result =
      some (Resolver.withTimes bridged.machine.fs (merged.complete bridgedInfo)) := by
    rw [hstore, (completed_eq _ _ merged).1, hopen, Resolver.answer_of_cached hfile hcached]
    rfl
  have hpool : pool = (Pool.start [d, merged] .inMemory).run bridged [0, 1, 0, 1, 0] := by
    rw [← hfound]
  rw [hpool, hfound, ← hpath]
  refine ⟨rfl, hkey, ⟨hfinished, ?_⟩, ?_, ?_⟩
  · simp [hresults]
  · simp [hd, he]
  · rw [completeAll_cons_result, completeAll_cons_result, hd, hlast]
    simp [completeAll, pure, Traced.pure]

end Composite

end EnvDiscovery
