import EnvDiscovery.Proofs.Freshness
import Mathlib.Data.List.Count

/-!
**Resolutions that do not meet.**

A resolution reads the rows under the cache key of its executable, and writes at most the first of
them. So two resolutions with different keys can change places: each gives what it gives alone, and
they leave the same rows.

Main definitions:
* `Store.rows`, `Store.AgreeAt`, `Store.Agree` — the rows under a key, and stores that have the same
  rows;
* `Resolver.ran`, `Resolver.resolved`, `Resolver.learns` — what running an executable gives, what
  resolving it gives, and what is learnt from that.

Main results:
* `Store.Agree.perm` — stores that agree have the same rows altogether;
* `Resolver.interpreter_eq` — a resolution in terms of these;
* `Resolver.rows_remember` — what remembering an answer does to the rows under its key;
* `Resolver.records_commute` — **two resolutions with different keys commute**.
-/

namespace EnvDiscovery

open Resolution

/-! ### Rows -/

namespace Store

/-- The rows under a key, in order. -/
def rows (s : Store) (key : String) : List (String × Entry) :=
  s.entries.filter (·.1 == key)

/-- The stores are of one kind and have the same rows under the key. -/
structure AgreeAt (key : String) (s t : Store) : Prop where
  asText_eq : s.asText = t.asText
  readable_eq : s.readable = t.readable
  writable_eq : s.writable = t.writable
  rows_eq : s.rows key = t.rows key

/-- The stores have the same rows under every key. -/
def Agree (s t : Store) : Prop := ∀ key, AgreeAt key s t

section Agree

variable {key : String} {s t u : Store}

theorem AgreeAt.refl (key : String) (s : Store) : AgreeAt key s s := ⟨rfl, rfl, rfl, rfl⟩

theorem AgreeAt.symm (h : AgreeAt key s t) : AgreeAt key t s :=
  ⟨h.asText_eq.symm, h.readable_eq.symm, h.writable_eq.symm, h.rows_eq.symm⟩

theorem AgreeAt.trans (h : AgreeAt key s t) (h' : AgreeAt key t u) : AgreeAt key s u :=
  ⟨h.asText_eq.trans h'.asText_eq, h.readable_eq.trans h'.readable_eq,
    h.writable_eq.trans h'.writable_eq, h.rows_eq.trans h'.rows_eq⟩

theorem lookup_eq_head?_rows (s : Store) (key : String) :
    s.entries.lookup key = (s.rows key).head?.map Prod.snd := by
  unfold rows
  induction s.entries with
  | nil => rfl
  | cons p entries ih =>
      obtain ⟨k, e⟩ := p
      by_cases hk : k = key
      · subst hk
        simp
      · have hne : (key == k) = false := by simpa using Ne.symm hk
        simp [List.lookup_cons, hne, hk, ih]

theorem AgreeAt.get_eq (h : AgreeAt key s t) : s.get key = t.get key := by
  rw [Store.get, Store.get, h.readable_eq, lookup_eq_head?_rows, lookup_eq_head?_rows, h.rows_eq]

/-- Stores that agree have the same rows altogether. -/
theorem Agree.perm (h : s.Agree t) : s.entries.Perm t.entries := by
  classical
  refine List.perm_iff_count.2 fun p => ?_
  have hcount : ∀ entries : List (String × Entry),
      entries.count p = (entries.filter (·.1 == p.1)).count p :=
    fun entries => (List.count_filter (by simp)).symm
  rw [hcount s.entries, hcount t.entries]
  exact congrArg (List.count p) (h p.1).rows_eq

theorem SameExcept.agreeAt {other : String} (h : SameExcept key s t) (hne : other ≠ key) :
    AgreeAt other t s where
  asText_eq := h.asText_eq
  readable_eq := h.readable_eq
  writable_eq := h.writable_eq
  rows_eq := by
    have hrows : ∀ u : Store, u.rows other = (u.entries.filter (·.1 != key)).filter
        (·.1 == other) := by
      intro u
      rw [rows, List.filter_filter]
      refine List.filter_congr fun p _ => ?_
      by_cases hp : p.1 = other
      · simp [hp, hne]
      · simp [hp]
    rw [hrows, hrows, h.others_eq]

theorem rows_put_self (key : String) (e : Entry) (entries : List (String × Entry)) :
    (put key e entries).filter (·.1 == key) = (key, e) :: (entries.filter (·.1 == key)).tail := by
  induction entries with
  | nil => simp [put]
  | cons p entries ih =>
      obtain ⟨k, old⟩ := p
      rw [put]
      split
      case isTrue h => simp [h]
      case isFalse h => simp [h, ih]

end Agree

end Store

/-! ### What a resolution depends on -/

namespace Resolver

/-- What an executable gives when it is run. -/
def ran (r : Resolver) (executable : Path) : Except ProcessFailure (Option InterpreterInfo) :=
  match r.machine.executor.run (r.call executable) with
  | .error f => if f.isTimeout then .error f else .ok none
  | .ok output => .ok (readReport executable output)

/-- What resolving an executable gives: the answer of the cache, else what the executable gives when
it is run. -/
def resolved (r : Resolver) (store : Store) (executable : Path) :
    Except ProcessFailure (Option InterpreterInfo) :=
  if r.machine.fs.isFile executable then (r.cached store executable).elim (r.ran executable)
    (.ok ∘ some)
  else .ok none

/-- What is learnt by resolving an executable: the answer that was not in the cache. -/
def learns (r : Resolver) (store : Store) (executable : Path) : Option InterpreterInfo :=
  if r.machine.fs.isFile executable ∧ r.cached store executable = none then
    (r.ran executable).toOption.join
  else none

/-- **A resolution** gives what is resolved, and stores what is learnt. -/
theorem interpreter_eq (r : Resolver) (store : Store) (executable : Path) :
    (r.interpreter store executable).value.result = r.resolved store executable ∧
      (r.interpreter store executable).value.store =
        (r.learns store executable).elim store (r.remember store executable) := by
  have h := r.interpreter_outcome store executable
  generalize r.interpreter store executable = out at h
  cases h with
  | noFile hfile => simp [resolved, learns, hfile]
  | hit hfile hhit => simp [resolved, learns, hfile, hhit]
  | tooLong hlive hrun hf =>
      simp [resolved, learns, ran, hlive.isFile, hlive.miss, hrun, hf, Except.toOption]
  | failed hlive hrun hf =>
      simp [resolved, learns, ran, hlive.isFile, hlive.miss, hrun, hf, Except.toOption]
  | unreadable hlive hrun hreport =>
      simp [resolved, learns, ran, hlive.isFile, hlive.miss, hrun, hreport, Except.toOption]
  | answered hlive hrun hreport =>
      simp [resolved, learns, ran, hlive.isFile, hlive.miss, hrun, hreport, Except.toOption]

section Rows

variable {r : Resolver} {s t : Store} {executable : Path}

/-- What the cache answers depends on the rows under the key. -/
theorem cached_congr (h : Store.AgreeAt (cacheKey executable) s t) :
    r.cached s executable = r.cached t executable := by
  unfold cached
  cases r.cache with
  | none => rfl
  | some c =>
      have hread : (c.scope executable).read s r.now = (c.scope executable).read t r.now := by
        rw [Store.Scope.read, Store.Scope.read,
          show s.get (c.scope executable).key = _ from h.get_eq]
        rfl
      rw [Option.bind_some, Option.bind_some, Cache.get, Cache.get, hread]

theorem resolved_congr (h : Store.AgreeAt (cacheKey executable) s t) :
    r.resolved s executable = r.resolved t executable := by
  rw [resolved, resolved, cached_congr h]

theorem learns_congr (h : Store.AgreeAt (cacheKey executable) s t) :
    r.learns s executable = r.learns t executable := by
  rw [learns, learns, cached_congr h]

/-- The entry that is written when an answer is remembered; none if there is no cache or the file
cannot be identified. -/
def entryFor (r : Resolver) (asText : Bool) (executable : Path) (info : InterpreterInfo) :
    Option Store.Entry :=
  r.cache.bind fun _ => (fileHash r.machine.fs executable).map fun hash =>
    let v := Store.Envelope.toJson Cache.form ⟨some ⟨hash, info⟩, r.now⟩
    if asText then .text v.render else .value v

theorem remember_eq (r : Resolver) (store : Store) (executable : Path) (info : InterpreterInfo) :
    r.remember store executable info =
      if store.writable then
        (r.entryFor store.asText executable info).elim store fun e =>
          { store with entries := Store.put (cacheKey executable) e store.entries }
      else store := by
  cases hc : r.cache with
  | none => simp [remember, entryFor, hc]
  | some c =>
      cases hhash : fileHash r.machine.fs executable with
      | none => simp [remember, entryFor, hc, Cache.insert, hhash]
      | some hash =>
          cases hwrite : store.writable with
          | false =>
              simp [remember, hc, Cache.insert, hhash, Store.Scope.write, Store.update, hwrite]
          | true =>
              simp only [remember, entryFor, hc, Cache.insert, hhash, Store.Scope.write,
                Store.update, hwrite]
              rfl

/-- Remembering an answer leaves the rows under other keys alone. -/
theorem remember_agreeAt_of_ne {key : String} (hne : key ≠ cacheKey executable) (store : Store)
    (info : InterpreterInfo) : Store.AgreeAt key (r.remember store executable info) store := by
  rw [remember_eq]
  split
  case isFalse => exact .refl key store
  case isTrue =>
    cases r.entryFor store.asText executable info with
    | none => exact .refl key store
    | some e => exact Store.SameExcept.agreeAt ⟨rfl, rfl, rfl, Store.filter_put _ _ _⟩ hne

/-- **Remembering an answer** replaces the first row under the key, or makes one, unless it cannot
be kept. -/
theorem rows_remember (r : Resolver) (store : Store) (executable : Path) (info : InterpreterInfo) :
    (r.remember store executable info).rows (cacheKey executable) =
      if store.writable then
        (r.entryFor store.asText executable info).elim (store.rows (cacheKey executable)) fun e =>
          (cacheKey executable, e) :: (store.rows (cacheKey executable)).tail
      else store.rows (cacheKey executable) := by
  rw [remember_eq]
  split
  case isFalse => rfl
  case isTrue =>
    cases r.entryFor store.asText executable info with
    | none => rfl
    | some e => exact Store.rows_put_self _ _ _

theorem remember_kind (r : Resolver) (store : Store) (executable : Path) (info : InterpreterInfo) :
    (r.remember store executable info).asText = store.asText ∧
      (r.remember store executable info).readable = store.readable ∧
      (r.remember store executable info).writable = store.writable := by
  rw [remember_eq]
  split
  case isFalse => exact ⟨rfl, rfl, rfl⟩
  case isTrue => cases r.entryFor store.asText executable info <;> exact ⟨rfl, rfl, rfl⟩

/-- Remembering the same of the same file under the same key leaves the same rows there. -/
theorem remember_congr {other : Path} (hkey : cacheKey other = cacheKey executable)
    (hhash : fileHash r.machine.fs other = fileHash r.machine.fs executable)
    (h : Store.AgreeAt (cacheKey executable) s t) (info : InterpreterInfo) :
    Store.AgreeAt (cacheKey executable) (r.remember s other info)
    (r.remember t executable info) := by
  obtain ⟨htext, hreadable, hwritable⟩ := r.remember_kind s other info
  obtain ⟨htext', hreadable', hwritable'⟩ := r.remember_kind t executable info
  have hrows := r.rows_remember s other info
  have hentry : r.entryFor t.asText other info = r.entryFor t.asText executable info := by
    rw [entryFor, entryFor, hhash]
  rw [hkey, h.asText_eq, h.writable_eq, h.rows_eq, hentry] at hrows
  exact ⟨htext.trans (h.asText_eq.trans htext'.symm),
    hreadable.trans (h.readable_eq.trans hreadable'.symm),
    hwritable.trans (h.writable_eq.trans hwritable'.symm),
    hrows.trans (r.rows_remember t executable info).symm⟩

/-- Remembering an answer again changes nothing. -/
theorem remember_again (r : Resolver) (store : Store) (executable : Path) (info : InterpreterInfo) :
    Store.AgreeAt (cacheKey executable)
    (r.remember (r.remember store executable info) executable info)
      (r.remember store executable info) := by
  obtain ⟨htext, -, hwritable⟩ := r.remember_kind store executable info
  obtain ⟨htext', hreadable', hwritable'⟩ :=
    r.remember_kind (r.remember store executable info) executable info
  refine ⟨htext', hreadable', hwritable', ?_⟩
  rw [rows_remember, htext, hwritable, rows_remember]
  split
  case isFalse => rfl
  case isTrue => cases r.entryFor store.asText executable info <;> rfl

/-! ### Two resolutions -/

/-- A resolution leaves the rows under other keys alone. -/
theorem interpreter_agreeAt_of_ne {key : String} (hne : key ≠ cacheKey executable) (store : Store) :
    Store.AgreeAt key (r.interpreter store executable).value.store store := by
  rw [(r.interpreter_eq store executable).2]
  cases r.learns store executable with
  | none => exact .refl key store
  | some info => exact remember_agreeAt_of_ne hne store info

theorem interpreter_congr (h : Store.AgreeAt (cacheKey executable) s t) :
    (r.interpreter s executable).value.result = (r.interpreter t executable).value.result ∧
      Store.AgreeAt (cacheKey executable) (r.interpreter s executable).value.store
        (r.interpreter t executable).value.store := by
  obtain ⟨hresult, hstore⟩ := r.interpreter_eq s executable
  obtain ⟨hresult', hstore'⟩ := r.interpreter_eq t executable
  rw [hresult, hresult', hstore, hstore', resolved_congr h, learns_congr h]
  refine ⟨rfl, ?_⟩
  cases r.learns t executable with
  | none => exact h
  | some info => exact remember_congr rfl rfl h info

end Rows

/-- **Two resolutions with different keys commute**: each gives what it gives alone, and both orders
leave the same rows. -/
theorem records_commute (r : Resolver) (store : Store) {d e : EnvRecord}
    (hne : cacheKey d.path ≠ cacheKey e.path) :
    (r.record (r.record store e).value.store d).value.result = (r.record store d).value.result ∧
    (r.record (r.record store d).value.store e).value.result = (r.record store e).value.result ∧
    (r.record (r.record store d).value.store e).value.store.Agree
      (r.record (r.record store e).value.store d).value.store := by
  simp only [r.record_result, (r.record_run _ _).1]
  have hd : Store.AgreeAt (cacheKey d.path) (r.interpreter store e.path).value.store store :=
    interpreter_agreeAt_of_ne hne store
  have he : Store.AgreeAt (cacheKey e.path) (r.interpreter store d.path).value.store store :=
    interpreter_agreeAt_of_ne (Ne.symm hne) store
  obtain ⟨hresultD, hstoreD⟩ := interpreter_congr (r := r) hd
  obtain ⟨hresultE, hstoreE⟩ := interpreter_congr (r := r) he
  refine ⟨by rw [hresultD], by rw [hresultE], fun key => ?_⟩
  by_cases hkey : key = cacheKey e.path
  · subst hkey
    exact hstoreE.trans (interpreter_agreeAt_of_ne (Ne.symm hne) _).symm
  · refine (interpreter_agreeAt_of_ne hkey _).trans ?_
    by_cases hkey' : key = cacheKey d.path
    · subst hkey'
      exact hstoreD.symm
    · exact (interpreter_agreeAt_of_ne hkey' store).trans
        ((interpreter_agreeAt_of_ne hkey' _).trans (interpreter_agreeAt_of_ne hkey store)).symm

end Resolver

end EnvDiscovery
