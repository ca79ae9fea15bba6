import EnvDiscovery.Proofs.Commuting

/-!
**Resolutions at the same time.**

The records of a listing are completed at the same time over one store. Each resolution takes up to
three steps: it looks into the cache, it runs the executable, and it stores the answer. The steps of
different resolutions come in any order. Resolutions with one cache key can meet, since one may find
what another has stored. If they are about one file and come to the same answer, nothing depends on
the order: each record becomes what it becomes alone.

Main definitions:
* `Stage`, `Task`, `Pool` — resolutions under way over one store, and runs of their steps;
* `Resolver.Alike` — executables that may meet in the cache;
* `Resolver.Ahead`, `Resolver.Wrote` — what a store can be while the resolutions go on;
* `Task.Sound`, `Pool.Sound` — the invariant of a run.

Main results:
* `Resolver.Ahead.answer_eq` — **nothing that is stored on the way changes an answer**;
* `Task.Sound.step` — one step of a resolution;
* `Pool.Sound.step`, `Pool.Sound.run` — **one step and a run** of all of them;
* `Pool.Sound.results_eq`, `Pool.Sound.wrote` — what there is when all have ended.
-/

namespace EnvDiscovery

open Resolution

/-! ### Steps -/

/-- How far a resolution has come. -/
inductive Stage where
  | fresh
  | running
  | answered (info : InterpreterInfo)
  | done (result : Option EnvRecord)

/-- The record that a resolution ends with. -/
def Stage.result : Stage → Option EnvRecord
  | done result => result
  | _ => none

/-- Whether a resolution has ended. -/
def Stage.isDone : Stage → Bool
  | done _ => true
  | _ => false

/-- The next stage of the resolution of a record, and the store after that: the cache is read, the
executable is run, or its answer is stored. -/
def Stage.step (r : Resolver) (e : EnvRecord) (store : Store) : Stage → Stage × Store
  | fresh =>
    if e.isResolved then (.done (some e), store)
    else if r.machine.fs.isFile e.path then
      ((r.cached store e.path).elim .running fun info =>
        .done (some (Resolver.withTimes r.machine.fs (e.complete info))), store)
    else (.done none, store)
  | running => ((r.ran e.path).toOption.join.elim (.done none) .answered, store)
  | answered info =>
    (.done (some (Resolver.withTimes r.machine.fs (e.complete info))), r.remember store e.path info)
  | done result => (.done result, store)

/-- The resolution of a record. -/
structure Task where
  record : EnvRecord
  stage : Stage

/-- Resolutions that are under way, and the store that they share. -/
structure Pool where
  tasks : List Task
  store : Store

namespace Pool

/-- The resolutions of records that have not begun. -/
def start (found : List EnvRecord) (store : Store) : Pool :=
  ⟨found.map (⟨·, .fresh⟩), store⟩

/-- One step of the resolution at a position. -/
def step (r : Resolver) (pool : Pool) (i : Nat) : Pool :=
  match pool.tasks[i]? with
  | none => pool
  | some t =>
    let (stage, store) := t.stage.step r t.record pool.store
    ⟨pool.tasks.set i ⟨t.record, stage⟩, store⟩

/-- Steps of the resolutions at the given positions. -/
def run (r : Resolver) (pool : Pool) (schedule : List Nat) : Pool :=
  schedule.foldl (step r) pool

/-- All resolutions have ended. -/
def Finished (pool : Pool) : Prop := ∀ t ∈ pool.tasks, t.stage.isDone = true

/-- The records that the resolutions ended with, in the order of their positions. -/
def results (pool : Pool) : List EnvRecord := pool.tasks.filterMap (·.stage.result)

end Pool

/-! ### What may meet in the cache -/

namespace Resolver

/-- What resolving an executable comes to. -/
def answer (r : Resolver) (store : Store) (executable : Path) : Option InterpreterInfo :=
  (r.resolved store executable).toOption.join

/-- Executables with one cache key are one file, and resolving them comes to the same. -/
def Alike (r : Resolver) (store : Store) (p q : Path) : Prop :=
  cacheKey p = cacheKey q →
    fileHash r.machine.fs p = fileHash r.machine.fs q ∧ r.answer store p = r.answer store q

theorem learns_eq_some_iff {r : Resolver} {store : Store} {executable : Path}
    {info : InterpreterInfo} :
    r.learns store executable = some info ↔ r.Live store executable ∧
    (r.ran executable).toOption.join = some info := by
  unfold learns
  split
  case isTrue h => exact ⟨fun hran => ⟨⟨h.1, h.2⟩, hran⟩, fun hran => hran.2⟩
  case isFalse h => exact ⟨nofun, fun hran => absurd ⟨hran.1.isFile, hran.1.miss⟩ h⟩

theorem answer_of_live {r : Resolver} {store : Store} {executable : Path}
    (h : r.Live store executable) :
    r.answer store executable = (r.ran executable).toOption.join := by
  rw [answer, resolved, if_pos h.isFile, h.miss, Option.elim_none]

theorem answer_of_cached {r : Resolver} {store : Store} {executable : Path} {info : InterpreterInfo}
    (hfile : r.machine.fs.isFile executable = true) (h : r.cached store executable = some info) :
    r.answer store executable = some info := by
  rw [answer, resolved, if_pos hfile, h]
  rfl

theorem isFile_of_answer {r : Resolver} {store : Store} {executable : Path} {info : InterpreterInfo}
    (h : r.answer store executable = some info) : r.machine.fs.isFile executable = true := by
  by_contra hfile
  rw [answer, resolved, if_neg hfile] at h
  cases h

/-- The cache answers the same for one file under one key. -/
theorem cached_eq_of_alike {r : Resolver} {store : Store} {p q : Path}
    (hkey : cacheKey p = cacheKey q) (hhash : fileHash r.machine.fs p = fileHash r.machine.fs q) :
    r.cached store p = r.cached store q := by
  have hget : ∀ c : Cache, c.get r.machine.fs store r.now p = c.get r.machine.fs store r.now q := by
    intro c
    have hscope : c.scope p = c.scope q := by simp only [Cache.scope, hkey]
    rw [Cache.get, Cache.get, hscope, hhash]
  simp only [cached, hget]

/-! ### Stores on the way -/

/-- Under each key the store has the rows that it had at the start, or what one of the resolutions
has written. -/
def Ahead (r : Resolver) (start : Store) (ps : List Path) (store : Store) : Prop :=
  ∀ key, Store.AgreeAt key store start ∨
    ∃ p ∈ ps, cacheKey p = key ∧
      ∃ info, r.learns start p = some info ∧ Store.AgreeAt key store (r.remember start p info)

/-- What is learnt from the executable is in the store. -/
def Wrote (r : Resolver) (start store : Store) (p : Path) : Prop :=
  ∀ info, r.learns start p = some info → Store.AgreeAt (cacheKey p) store (r.remember start p info)

section Ahead

variable {r : Resolver} {start store : Store} {ps : List Path} {p q : Path} {info : InterpreterInfo}

/-- An executable that has to be run on the way had to be run at the start. -/
theorem Ahead.live (h : r.Ahead start ps store) (hps : ∀ p ∈ ps, ∀ q ∈ ps, r.Alike start p q)
    (hq : q ∈ ps) (hlive : r.Live store q) : r.Live start q := by
  refine ⟨hlive.isFile, ?_⟩
  rcases h (cacheKey q) with hsame | ⟨p, hp, hkey, info, hlearns, -⟩
  · rw [← cached_congr hsame, hlive.miss]
  · have hlearnt := (learns_eq_some_iff.1 hlearns).1
    rw [← cached_eq_of_alike hkey (hps p hp q hq hkey).1, hlearnt.miss]

/-- Where an answer was stored, the cache gives that answer or none. -/
theorem eq_of_cached_remember {found : InterpreterInfo} (hkey : cacheKey q = cacheKey p)
    (hmiss : r.cached start q = none) (h : r.cached (r.remember start p info) q = some found) :
    found = info := by
  cases hc : r.cache with
  | none => simp [cached, hc] at h
  | some c =>
      rcases remember_cases hc start p info with ⟨hkeep, -⟩ | ⟨hash, -, -, hentry⟩
      · rw [hkeep, hmiss] at h
        cases h
      · rw [cached_eq_get hc] at h
        rw [← hkey] at hentry
        exact (Cache.eq_of_get_of_hasEntry hentry h).1

/-- **Nothing that is stored on the way changes an answer.** -/
theorem Ahead.answer_eq (h : r.Ahead start ps store) (hps : ∀ p ∈ ps, ∀ q ∈ ps, r.Alike start p q)
    (hq : q ∈ ps) :
    r.answer store q = r.answer start q := by
  rcases h (cacheKey q) with hsame | ⟨p, hp, hkey, info, hlearns, hagree⟩
  · rw [answer, answer, resolved_congr hsame]
  · obtain ⟨hlive, hran⟩ := learns_eq_some_iff.1 hlearns
    obtain ⟨hhash, hanswer⟩ := hps p hp q hq hkey
    rw [answer_of_live hlive, hran] at hanswer
    have hfile := isFile_of_answer hanswer.symm
    have hmiss : r.cached start q = none := (cached_eq_of_alike hkey hhash).symm.trans hlive.miss
    cases hcached : r.cached store q with
    | some found =>
        rw [cached_congr hagree] at hcached
        rw [answer_of_cached hfile ((cached_congr hagree).trans hcached), ← hanswer,
          eq_of_cached_remember hkey.symm hmiss hcached]
    | none => rw [answer_of_live ⟨hfile, hcached⟩, answer_of_live ⟨hfile, hmiss⟩]

/-- What two resolutions with one key learn is the same. -/
theorem agreeAt_of_learns (halike : r.Alike start p q) (hkey : cacheKey p = cacheKey q)
    {other : InterpreterInfo} (hp : r.learns start p = some info)
    (hq : r.learns start q = some other) :
    Store.AgreeAt (cacheKey q) (r.remember start p info) (r.remember start q other) := by
  obtain ⟨hlive, hran⟩ := learns_eq_some_iff.1 hp
  obtain ⟨hlive', hran'⟩ := learns_eq_some_iff.1 hq
  obtain ⟨hhash, hanswer⟩ := halike hkey
  rw [answer_of_live hlive, answer_of_live hlive', hran, hran', Option.some_inj] at hanswer
  subst hanswer
  exact remember_congr hkey hhash (.refl _ start) info

/-- Storing what is learnt leaves it in the store, whatever was stored before. -/
theorem Ahead.wrote_remember (h : r.Ahead start ps store)
    (hps : ∀ p ∈ ps, ∀ q ∈ ps, r.Alike start p q) (hq : q ∈ ps)
    (hlearns : r.learns start q = some info) :
    Store.AgreeAt (cacheKey q) (r.remember store q info) (r.remember start q info) := by
  rcases h (cacheKey q) with hsame | ⟨p, hp, hkey, other, hlearns', hagree⟩
  · exact remember_congr rfl rfl hsame info
  · have hmet := hagree.trans (agreeAt_of_learns (hps p hp q hq) hkey hlearns' hlearns)
    exact (remember_congr rfl rfl hmet info).trans (r.remember_again start q info)

theorem Ahead.remember (h : r.Ahead start ps store) (hps : ∀ p ∈ ps, ∀ q ∈ ps, r.Alike start p q)
    (hq : q ∈ ps) (hlearns : r.learns start q = some info) :
    r.Ahead start ps (r.remember store q info) := by
  intro key
  by_cases hkey : key = cacheKey q
  · subst hkey
    exact .inr ⟨q, hq, rfl, info, hlearns, h.wrote_remember hps hq hlearns⟩
  · have hframe := remember_agreeAt_of_ne (r := r) hkey store info
    rcases h key with hsame | ⟨p, hp, hpkey, other, hlearns', hagree⟩
    · exact .inl (hframe.trans hsame)
    · exact .inr ⟨p, hp, hpkey, other, hlearns', hframe.trans hagree⟩

theorem Wrote.remember (hwrote : r.Wrote start store p) (h : r.Ahead start ps store)
    (hps : ∀ p ∈ ps, ∀ q ∈ ps, r.Alike start p q) (hp : p ∈ ps) (hq : q ∈ ps)
    (hlearns : r.learns start q = some info) : r.Wrote start (r.remember store q info) p := by
  intro other hlearns'
  by_cases hkey : cacheKey p = cacheKey q
  · have hmet := agreeAt_of_learns (hps p hp q hq) hkey hlearns' hlearns
    rw [hkey]
    exact (h.wrote_remember hps hq hlearns).trans hmet.symm
  · exact (remember_agreeAt_of_ne hkey store info).trans (hwrote other hlearns')

/-- Where the cache answers on the way, what was to be learnt is in the store. -/
theorem Ahead.wrote_of_cached {found : InterpreterInfo} (h : r.Ahead start ps store)
    (hps : ∀ p ∈ ps, ∀ q ∈ ps, r.Alike start p q) (hq : q ∈ ps)
    (hcached : r.cached store q = some found) :
    r.Wrote start store q := by
  intro info hlearns
  rcases h (cacheKey q) with hsame | ⟨p, hp, hkey, other, hlearns', hagree⟩
  · rw [cached_congr hsame, (learns_eq_some_iff.1 hlearns).1.miss] at hcached
    cases hcached
  · exact hagree.trans (agreeAt_of_learns (hps p hp q hq) hkey hlearns' hlearns)

/-- Two stores that are ahead of one store, in which everything is written, agree. -/
theorem Ahead.agree {other : Store} (h : r.Ahead start ps store) (h' : r.Ahead start ps other)
    (hwrote : ∀ p ∈ ps, r.Wrote start store p) (hwrote' : ∀ p ∈ ps, r.Wrote start other p) :
    store.Agree other := by
  intro key
  rcases h key with hsame | ⟨p, hp, rfl, info, hlearns, hagree⟩
  · rcases h' key with hsame' | ⟨p, hp, rfl, info, hlearns, hagree⟩
    · exact hsame.trans hsame'.symm
    · exact (hwrote p hp info hlearns).trans hagree.symm
  · exact hagree.trans (hwrote' p hp info hlearns).symm

end Ahead

end Resolver

/-! ### Completing one record -/

namespace Composite

/-- A record is completed with the answer of its executable, unless it is complete, and what is
learnt is stored. -/
theorem completed_eq (r : Resolver) (store : Store) (e : EnvRecord) :
    (completed r store e).value.result =
        (if e.isResolved then some e
        else (r.answer store e.path).map fun info =>
          Resolver.withTimes r.machine.fs (e.complete info)) ∧
      (completed r store e).value.store =
        if e.isResolved then store
        else (r.learns store e.path).elim store (r.remember store e.path) := by
  cases he : e.isResolved with
  | true =>
      exact ⟨by simp [completed, he, pure, Traced.pure], by simp [completed, he, pure, Traced.pure]⟩
  | false =>
      obtain ⟨hresult, hstore⟩ := r.interpreter_eq store e.path
      have hrecord := r.record_result store e
      have hafter := (r.record_run store e).1
      rw [hresult] at hrecord
      rw [hstore] at hafter
      simp only [completed, he, bind, Traced.bind, Resolver.answer]
      generalize r.record store e = out at hrecord hafter ⊢
      generalize r.resolved store e.path = answer at hrecord ⊢
      obtain ⟨⟨result, after⟩, calls⟩ := out
      obtain rfl : result = _ := hrecord
      obtain rfl : after = _ := hafter
      rcases answer with f | _ | info <;> exact ⟨rfl, rfl⟩

end Composite

/-! ### The invariant -/

/-- A resolution that has come to its stage as it would alone: `start` is the store that all began
with. -/
inductive Task.Sound (r : Resolver) (start store : Store) : Task → Prop where
  | fresh {e : EnvRecord} : Sound r start store ⟨e, .fresh⟩
  | running {e : EnvRecord} (hopen : e.isResolved = false) (hlive : r.Live start e.path) :
      Sound r start store ⟨e, .running⟩
  | answered {e : EnvRecord} {info : InterpreterInfo} (hopen : e.isResolved = false)
      (hlearns : r.learns start e.path = some info) : Sound r start store ⟨e, .answered info⟩
  | done {e : EnvRecord} (hwrote : e.isResolved = false → r.Wrote start store e.path) :
      Sound r start store ⟨e, .done (Composite.completed r start e).value.result⟩

/-- The executables of the records that are not complete. -/
def openPaths (found : List EnvRecord) : List Path :=
  (found.filter (!·.isResolved)).map (·.path)

theorem mem_openPaths {found : List EnvRecord} {e : EnvRecord} (he : e ∈ found)
    (hopen : e.isResolved = false) :
    e.path ∈ openPaths found :=
  List.mem_map_of_mem (List.mem_filter.2 ⟨he, by simp [hopen]⟩)

/-- The records can be completed at the same time: those that may meet in the cache are alike. -/
def Resolver.Separate (r : Resolver) (store : Store) (found : List EnvRecord) : Prop :=
  ∀ p ∈ openPaths found, ∀ q ∈ openPaths found, r.Alike store p q

/-- All resolutions are sound, and the store is what they have made of it. -/
structure Pool.Sound (r : Resolver) (start : Store) (found : List EnvRecord) (pool : Pool) :
    Prop where
  records_eq : pool.tasks.map (·.record) = found
  tasks_sound : ∀ t ∈ pool.tasks, t.Sound r start pool.store
  ahead : r.Ahead start (openPaths found) pool.store

section Steps

variable {r : Resolver} {start store : Store} {found : List EnvRecord}

/-- What a step does to the store: nothing, or it stores what is learnt from one of the
executables. -/
def Stores (r : Resolver) (start : Store) (found : List EnvRecord) (store after : Store) : Prop :=
  after = store ∨
    ∃ q ∈ openPaths found, ∃ info, r.learns start q = some info ∧ after = r.remember store q info

theorem Stores.ahead {after : Store} (h : Stores r start found store after)
    (hsep : r.Separate start found) (hahead : r.Ahead start (openPaths found) store) :
    r.Ahead start (openPaths found) after := by
  rcases h with rfl | ⟨q, hq, info, hlearns, rfl⟩
  · exact hahead
  · exact hahead.remember hsep hq hlearns

/-- Steps of others leave a resolution sound. -/
theorem Stores.sound {after : Store} {t : Task} (h : Stores r start found store after)
    (hsep : r.Separate start found) (hahead : r.Ahead start (openPaths found) store)
    (ht : t.record ∈ found) (hsound : t.Sound r start store) :
    t.Sound r start after := by
  cases hsound with
  | fresh => exact .fresh
  | running hopen hlive => exact .running hopen hlive
  | answered hopen hlearns => exact .answered hopen hlearns
  | @done e hwrote =>
      refine .done fun hopen => ?_
      rcases h with rfl | ⟨q, hq, info, hlearns, rfl⟩
      · exact hwrote hopen
      · exact (hwrote hopen).remember hahead hsep (mem_openPaths ht hopen) hq hlearns

theorem Task.Sound.of_result {e : EnvRecord} {result : Option EnvRecord}
    (hresult : (Composite.completed r start e).value.result = result)
    (hwrote : e.isResolved = false → r.Wrote start store e.path) :
    Task.Sound r start store ⟨e, .done result⟩ :=
  hresult ▸ .done hwrote

/-- A resolution that is sound ends with the answer of its executable. -/
theorem Task.Sound.of_answer {e : EnvRecord} {a : Option InterpreterInfo}
    (hopen : e.isResolved = false) (hanswer : r.answer start e.path = a)
    (hwrote : r.Wrote start store e.path) :
    Task.Sound r start store
      ⟨e, .done (a.map fun info => Resolver.withTimes r.machine.fs (e.complete info))⟩ := by
  refine .of_result ?_ fun _ => hwrote
  rw [(Composite.completed_eq r start e).1, hopen, if_neg Bool.false_ne_true, hanswer]

/-- **One step** of a sound resolution. -/
theorem Task.Sound.step {t : Task} (hsound : t.Sound r start store) (hsep : r.Separate start found)
    (hahead : r.Ahead start (openPaths found) store) (ht : t.record ∈ found) :
    Task.Sound r start (t.stage.step r t.record store).2
      ⟨t.record, (t.stage.step r t.record store).1⟩ ∧
      Stores r start found store (t.stage.step r t.record store).2 := by
  cases hsound with
  | @fresh e =>
      cases he : e.isResolved with
      | true =>
          have hstep : Stage.fresh.step r e store = (.done (some e), store) := by
            simp [Stage.step, he]
          simp only [hstep]
          refine ⟨.of_result ?_ fun hopen => absurd (he.symm.trans hopen).symm Bool.false_ne_true,
            .inl rfl⟩
          rw [(Composite.completed_eq r start e).1, he, if_pos rfl]
      | false =>
          have hmem : e.path ∈ openPaths found := mem_openPaths ht he
          have hanswer := hahead.answer_eq hsep hmem
          cases hfile : r.machine.fs.isFile e.path with
          | false =>
              have hstep : Stage.fresh.step r e store = (.done none, store) := by
                simp [Stage.step, he, hfile]
              simp only [hstep]
              refine ⟨.of_answer (a := none) he ?_ ?_, .inl rfl⟩
              · simp [Resolver.answer, Resolver.resolved, hfile, Except.toOption]
              · intro info hlearns
                simp [Resolver.learns, hfile] at hlearns
          | true =>
              cases hcached : r.cached store e.path with
              | some info =>
                  have hstep : Stage.fresh.step r e store =
                      (.done (some (Resolver.withTimes r.machine.fs (e.complete info))),
                        store) := by
                    simp [Stage.step, he, hfile, hcached]
                  simp only [hstep]
                  rw [Resolver.answer_of_cached hfile hcached] at hanswer
                  exact ⟨.of_answer (a := some info) he hanswer.symm
                    (hahead.wrote_of_cached hsep hmem hcached), .inl rfl⟩
              | none =>
                  have hstep : Stage.fresh.step r e store = (.running, store) := by
                    simp [Stage.step, he, hfile, hcached]
                  simp only [hstep]
                  exact ⟨.running he (hahead.live hsep hmem ⟨hfile, hcached⟩), .inl rfl⟩
  | @running e hopen hlive =>
      cases hran : (r.ran e.path).toOption.join with
      | none =>
          have hstep : Stage.running.step r e store = (.done none, store) := by
            simp [Stage.step, hran]
          simp only [hstep]
          refine ⟨.of_answer (a := none) hopen ?_ ?_, .inl rfl⟩
          · rw [Resolver.answer_of_live hlive, hran]
          · intro info hlearns
            rw [(Resolver.learns_eq_some_iff.1 hlearns).2] at hran
            cases hran
      | some info =>
          have hstep : Stage.running.step r e store = (.answered info, store) := by
            simp [Stage.step, hran]
          simp only [hstep]
          exact ⟨.answered hopen (Resolver.learns_eq_some_iff.2 ⟨hlive, hran⟩), .inl rfl⟩
  | @answered e info hopen hlearns =>
      have hmem : e.path ∈ openPaths found := mem_openPaths ht hopen
      obtain ⟨hlive, hran⟩ := Resolver.learns_eq_some_iff.1 hlearns
      refine ⟨.of_answer (a := some info) hopen ?_ ?_, .inr ⟨e.path, hmem, info, hlearns, rfl⟩⟩
      · rw [Resolver.answer_of_live hlive, hran]
      · intro other hother
        obtain rfl : info = other := Option.some.inj (hlearns.symm.trans hother)
        exact hahead.wrote_remember hsep hmem hlearns
  | done hwrote => exact ⟨.done hwrote, .inl rfl⟩

end Steps

/-! ### Runs -/

namespace Pool

variable {r : Resolver} {start : Store} {found : List EnvRecord} {pool : Pool}

theorem sound_start (r : Resolver) (start : Store) (found : List EnvRecord) :
    (Pool.start found start).Sound r start found where
  records_eq := by simp [Pool.start, Function.comp_def]
  tasks_sound := by
    intro t ht
    obtain ⟨e, -, rfl⟩ := List.mem_map.1 ht
    exact .fresh
  ahead := fun key => .inl (.refl key start)

/-- **The step**: it leaves all resolutions sound. -/
theorem Sound.step (h : pool.Sound r start found) (hsep : r.Separate start found) (i : Nat) :
    (pool.step r i).Sound r start found := by
  unfold Pool.step
  split
  · exact h
  · rename_i t ht
    have hmem : t ∈ pool.tasks := List.mem_of_getElem? ht
    have hfound : ∀ u ∈ pool.tasks, u.record ∈ found :=
      fun u hu => h.records_eq ▸ List.mem_map_of_mem hu
    obtain ⟨hsound, hstores⟩ := (h.tasks_sound t hmem).step hsep h.ahead (hfound t hmem)
    refine ⟨?_, fun u hu => ?_, hstores.ahead hsep h.ahead⟩
    · obtain ⟨hi, rfl⟩ := List.getElem?_eq_some_iff.1 ht
      rw [List.map_set]
      change (pool.tasks.map (·.record)).set i (pool.tasks[i].record) = found
      rw [← List.map_set, List.set_getElem_self, h.records_eq]
    · rcases List.mem_or_eq_of_mem_set hu with hu | rfl
      · exact hstores.sound hsep h.ahead (hfound u hu) (h.tasks_sound u hu)
      · exact hsound

/-- **The run**: whatever the schedule, all resolutions stay sound. -/
theorem Sound.run (h : pool.Sound r start found) (hsep : r.Separate start found)
    (schedule : List Nat) :
    (pool.run r schedule).Sound r start found := by
  induction schedule generalizing pool with
  | nil => exact h
  | cons i schedule ih => exact ih (h.step hsep i)

/-- When all resolutions have ended, each record has become what it becomes alone. -/
theorem Sound.results_eq (h : pool.Sound r start found) (hfinished : pool.Finished) :
    pool.results = found.filterMap fun e => (Composite.completed r start e).value.result := by
  rw [← h.records_eq, List.filterMap_map, results]
  refine List.filterMap_congr fun t ht => ?_
  have hdone := hfinished t ht
  cases h.tasks_sound t ht with
  | fresh | running | answered => cases hdone
  | done => rfl

theorem Sound.wrote (h : pool.Sound r start found) (hfinished : pool.Finished) :
    ∀ p ∈ openPaths found, r.Wrote start pool.store p := by
  intro p hp
  obtain ⟨e, he, rfl⟩ := List.mem_map.1 hp
  obtain ⟨he, hopen⟩ := List.mem_filter.1 he
  rw [← h.records_eq] at he
  obtain ⟨t, ht, rfl⟩ := List.mem_map.1 he
  have hdone := hfinished t ht
  cases h.tasks_sound t ht with
  | fresh | running | answered => cases hdone
  | done hwrote => exact hwrote (by simpa using hopen)

end Pool

end EnvDiscovery
