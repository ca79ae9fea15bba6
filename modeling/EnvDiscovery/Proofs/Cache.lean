import EnvDiscovery.Proofs.Store
import EnvDiscovery.Resolution.Cache
import Mathlib.Data.List.Induction

/-!
**What a cache answers.**

Entries are inserted, invalidated and looked up in any order, while the file system changes between
one operation and the next. What counts for an executable is the last operation that wrote under its
key: an insertion of a file that could be identified, or an invalidation. Look-ups write nothing: by
its type `Cache.get` answers without a store, so that there is none it could have changed.

Main definitions:
* `Cache.Op`, `Cache.run` — operations, each with its file system, and runs of them;
* `Cache.lastWrite` — the last operation of a run that wrote under a key;
* `Cache.Keeps` — what a store has under a key after such a write.

Main results:
* `Cache.exec_keeps` — one operation;
* `Cache.run_keeps` — a run;
* `Cache.get_after_run_iff` — **a cache answers with the last entry written**, as long as the file
  is the same and the entry is not too old.
-/

namespace EnvDiscovery.Resolution

/-! ### Entries -/

theorem Entry.ofJson?_toJson (e : Entry) : Entry.ofJson? e.toJson = some e := by
  simp [Entry.ofJson?, Entry.toJson]

theorem Entry.exact_toJson (e : Entry) : Json.Exact 4 e.toJson := by
  refine .obj ?_ (by simp)
  simp [Json.Exact.str, InterpreterInfo.exact_toJson]

namespace Cache

/-- The form in which entries are kept. -/
def form : Store.Form (Option Entry) := .option Entry.toJson Entry.ofJson?

theorem form_lawful : form.Lawful :=
  Store.Form.lawful_option Entry.ofJson?_toJson (by simp [Entry.toJson]) fun e =>
    e.exact_toJson.mono (by decide)

/-- The store has the entry under the key, with its time of creation. -/
def HasEntry (store : Store) (key : String) (e : Entry) (created : Timestamp) : Prop :=
  store.Holds key (Store.Envelope.toJson form ⟨some e, created⟩)

/-- **An entry answers** while the file is the same and the expiry is not reached. -/
theorem get_of_hasEntry {c : Cache} (hspan : c.expiry.totalNanos ≤ Store.longestSpan)
    {store : Store} (hread : store.readable = true) {executable : Path} {e : Entry}
    {created : Timestamp} (hcreated : DateText.Readable created)
    (h : HasEntry store (cacheKey executable) e created) (fs : FileSystem) (now : Timestamp)
    (info : InterpreterInfo) :
    c.get fs store now executable = some info ↔
      info = e.info ∧ fileHash fs executable = some e.fileHash ∧
        Store.nanosBetween created now < c.expiry.totalNanos := by
  have hvalue := Store.Scope.read_of_holds (c := c.scope executable) form_lawful hread hcreated h
    now
  by_cases hage : Store.nanosBetween created now < c.expiry.totalNanos
  · have hfresh : ¬ Store.isExpired (c.scope executable).expiry now ⟨some e, created⟩ = true :=
      fun hexpired => absurd ((Store.isExpired_iff hspan).1 hexpired) (Int.not_le.2 hage)
    rw [if_neg hfresh] at hvalue
    cases hhash : fileHash fs executable with
    | none => simp [Cache.get, hhash]
    | some current => simp [Cache.get, hvalue, hhash, hage, eq_comm, and_comm]
  · have hexpired : Store.isExpired (c.scope executable).expiry now ⟨some e, created⟩ = true :=
      (Store.isExpired_iff hspan).2 (Int.not_lt.1 hage)
    rw [if_pos hexpired] at hvalue
    have hdefault : (c.scope executable).default = none := rfl
    simp [Cache.get, hvalue, hdefault, hage]

/-- Whatever is answered from an entry, it is what the entry says, and the file is the same. -/
theorem eq_of_get_of_hasEntry {c : Cache} {store : Store} {executable : Path} {e : Entry}
    {created now : Timestamp} {fs : FileSystem} {info : InterpreterInfo}
    (h : HasEntry store (cacheKey executable) e created)
    (hget : c.get fs store now executable = some info) :
    info = e.info ∧ fileHash fs executable = some e.fileHash := by
  rcases Store.Scope.read_eq_or (c := c.scope executable) form_lawful h now with hnone | hvalue
  · have hdefault : (c.scope executable).read store now = none := hnone
    simp [Cache.get, hdefault] at hget
  · cases hhash : fileHash fs executable with
    | none => simp [Cache.get, hhash] at hget
    | some current =>
        rw [Cache.get, hvalue, hhash] at hget
        obtain ⟨rfl, rfl⟩ : e.fileHash = current ∧ e.info = info := by simpa using hget
        exact ⟨rfl, rfl⟩

/-- What is kept under other keys does not matter. -/
theorem get_congr (c : Cache) {key : String} {store after : Store}
    (h : Store.SameExcept key store after) {executable : Path} (hne : cacheKey executable ≠ key)
    (fs : FileSystem) (now : Timestamp) :
    c.get fs after now executable = c.get fs store now executable := by
  have hread : (c.scope executable).read after now = (c.scope executable).read store now :=
    Store.Scope.read_congr h hne now
  rw [Cache.get, Cache.get, hread]

theorem get_of_lookup_none {c : Cache} {store : Store} {executable : Path}
    (h : store.entries.lookup (cacheKey executable) = none) (fs : FileSystem) (now : Timestamp) :
    c.get fs store now executable = none := by
  have hvalue : (c.scope executable).read store now = none := Store.Scope.read_of_lookup_none h now
  simp [Cache.get, hvalue]

theorem get_inMemory (c : Cache) (fs : FileSystem) (now : Timestamp) (executable : Path) :
    c.get fs .inMemory now executable = none :=
  get_of_lookup_none rfl fs now

/-- Inserting an entry whose file can be identified leaves it in the store and everything else
alone. -/
theorem insert_spec (c : Cache) {fs : FileSystem} {store : Store} (hwrite : store.writable = true)
    {executable : Path} {hash : String} (hhash : fileHash fs executable = some hash)
    (created : Timestamp) (info : InterpreterInfo) :
    ∃ after, c.insert fs store created executable info = .ok after ∧
      Store.SameExcept (cacheKey executable) store after ∧
      HasEntry after (cacheKey executable) ⟨hash, info⟩ created := by
  obtain ⟨after, hafter, hsame, hholds⟩ := Store.update_spec hwrite (cacheKey executable)
    (Json.parse?_render (Store.Envelope.exact_toJson form_lawful ⟨some ⟨hash, info⟩, created⟩))
  refine ⟨after, ?_, hsame, hholds⟩
  rw [Cache.insert, hhash]
  exact hafter

/-! ### Operations -/

/-- An operation on a cache, with the file system as it is at that moment. -/
inductive Op where
  | insert (fs : FileSystem) (executable : Path) (info : InterpreterInfo) (created : Timestamp)
      (readable : DateText.Readable created)
  | invalidate (executable : Path)
  | get (fs : FileSystem) (executable : Path) (now : Timestamp)

/-- The store after an operation. A look-up has none to return. -/
def Op.exec (c : Cache) (store : Store) : Op → Except StorageFailure Store
  | insert fs executable info created _ => c.insert fs store created executable info
  | invalidate executable => Cache.invalidate store executable
  | get _ _ _ => .ok store

/-- The store after a list of operations. -/
def run (c : Cache) (store : Store) (ops : List Op) : Except StorageFailure Store :=
  ops.foldlM (Op.exec c) store

/-- Whether an operation writes under a key: an insertion writes nothing if its file cannot be
identified. -/
def Op.writes (key : String) : Op → Bool
  | insert fs executable _ _ _ => cacheKey executable == key && (fileHash fs executable).isSome
  | invalidate executable => cacheKey executable == key
  | get _ _ _ => false

/-- Whether an operation only looks up. -/
def Op.isGet : Op → Bool
  | get _ _ _ => true
  | _ => false

/-- The last operation that wrote under a key. -/
def lastWrite (key : String) (ops : List Op) : Option Op :=
  (ops.filter (Op.writes key)).getLast?

theorem lastWrite_concat (key : String) (ops : List Op) (op : Op) :
    lastWrite key (ops ++ [op]) = if op.writes key then some op else lastWrite key ops :=
  getLast?_filter_concat (Op.writes key) ops op

/-- What a store has under a key when the given operation was the last to write there; without one
it is what the store had at the start. -/
def Keeps (start store : Store) (key : String) : Option Op → Prop
  | none => store.entries.lookup key = start.entries.lookup key
  | some (.insert fs executable info created _) =>
      ∃ hash, fileHash fs executable = some hash ∧ HasEntry store key ⟨hash, info⟩ created
  | some _ => store.entries.lookup key = none

theorem Keeps.congr {start store after : Store} {key : String} {last : Option Op}
    (h : Keeps start store key last)
    (hlookup : after.entries.lookup key = store.entries.lookup key) :
    Keeps start after key last := by
  unfold Keeps HasEntry Store.Holds at *
  rwa [hlookup]

/-- **One operation**: what it writes under the key is kept, and otherwise the key is left alone. -/
theorem exec_keeps (c : Cache) {start store : Store} (hwrite : store.writable = true) {key : String}
    {last : Option Op} (h : Keeps start store key last) (op : Op) :
    ∃ after, op.exec c store = .ok after ∧ after.readable = store.readable ∧
    after.writable = store.writable ∧
      Keeps start after key (if op.writes key then some op else last) := by
  cases op with
  | insert fs executable info created hcreated =>
      cases hhash : fileHash fs executable with
      | none =>
          -- a file that cannot be identified is not written, so the last write stays the last one
          exact ⟨store, by simp [Op.exec, Cache.insert, hhash], rfl,
            rfl, by simpa [Op.writes, hhash] using h⟩
      | some hash =>
          obtain ⟨after, hafter, hsame, hentry⟩ := insert_spec c hwrite hhash created info
          refine ⟨after, hafter, hsame.readable_eq, hsame.writable_eq, ?_⟩
          by_cases hkey : cacheKey executable = key
          · subst hkey
            simpa [Op.writes, hhash, Keeps] using hentry
          · simpa [Op.writes, hkey] using h.congr (hsame.lookup_eq (Ne.symm hkey))
  | invalidate executable =>
      obtain ⟨after, hafter, hsame, hnone⟩ := Store.remove_spec hwrite (cacheKey executable)
      refine ⟨after, hafter, hsame.readable_eq, hsame.writable_eq, ?_⟩
      by_cases hkey : cacheKey executable = key
      · subst hkey
        simpa [Op.writes, Keeps] using hnone
      · simpa [Op.writes, hkey] using h.congr (hsame.lookup_eq (Ne.symm hkey))
  | get fs executable now => exact ⟨store, rfl, rfl, rfl, by simpa [Op.writes] using h⟩

/-- **A run** succeeds, and keeps under the key what was written there last. -/
theorem run_keeps (c : Cache) {store : Store} (hread : store.readable = true)
    (hwrite : store.writable = true) (key : String) (ops : List Op) :
    ∃ after, run c store ops = .ok after ∧ after.readable = true ∧ after.writable = true ∧
      Keeps store after key (lastWrite key ops) := by
  -- from the right: the last operation either wrote under the key or left it to the ones before
  induction ops using List.reverseRecOn with
  | nil => exact ⟨store, rfl, hread, hwrite, rfl⟩
  | append_singleton ops op ih =>
      obtain ⟨mid, hmid, hmidRead, hmidWrite, hkeeps⟩ := ih
      obtain ⟨after, hafter, hr, hw, hlast⟩ := exec_keeps c hmidWrite hkeeps op
      refine ⟨after, ?_, hr.trans hmidRead, hw.trans hmidWrite, by rwa [lastWrite_concat]⟩
      rw [run] at hmid ⊢
      simp only [List.foldlM_append, hmid, List.foldlM_cons, List.foldlM_nil, bind_pure]
      exact hafter

/-- Looking up changes nothing: without its look-ups a run ends in the same store. -/
theorem run_filter_not_isGet (c : Cache) (store : Store) (ops : List Op) :
    run c store (ops.filter fun op => !op.isGet) = run c store ops := by
  induction ops generalizing store with
  | nil => rfl
  | cons op ops ih =>
      cases op with
      | get fs executable now => exact ih store
      | insert fs executable info created hcreated =>
          exact congrArg (Except.bind _) (funext ih)
      | invalidate executable =>
          exact congrArg (Except.bind _) (funext ih)

/-- **A cache answers with the last entry written.** After any run, over any file systems, a look-up
gives what was inserted by the last operation that wrote under the key of the executable, provided
the file has the identity it had then and the age of the entry is below the expiry; it gives nothing
in all other cases. -/
theorem get_after_run_iff (c : Cache) (hspan : c.expiry.totalNanos ≤ Store.longestSpan)
    {store : Store} (hread : store.readable = true) (hwrite : store.writable = true)
    (executable : Path) (ops : List Op) (hstart : lastWrite (cacheKey executable) ops = none →
      store.entries.lookup (cacheKey executable) = none) :
    ∃ after, run c store ops = .ok after ∧ run c store (ops.filter fun op => !op.isGet) =
      .ok after ∧
      ∀ fs now info, c.get fs after now executable = some info ↔
        ∃ fs₀ written created readable,
          lastWrite (cacheKey executable) ops = some (.insert fs₀ written info created readable) ∧
          fileHash fs executable = fileHash fs₀ written ∧
          Store.nanosBetween created now < c.expiry.totalNanos := by
  obtain ⟨after, hafter, hread', -, hkeeps⟩ := run_keeps c hread hwrite (cacheKey executable) ops
  refine ⟨after, hafter, (run_filter_not_isGet c store ops).trans hafter, fun fs now info => ?_⟩
  generalize lastWrite (cacheKey executable) ops = last at hstart hkeeps ⊢
  cases last with
  | none =>
      have hnone := get_of_lookup_none (c := c) (hkeeps.trans (hstart rfl)) fs now
      simp [hnone]
  | some op =>
      cases op with
      | insert fs₀ written info₀ created readable =>
          obtain ⟨hash, hhash, hentry⟩ := hkeeps
          rw [get_of_hasEntry hspan hread' readable hentry]
          -- the identity at the insertion is the one in the entry
          constructor
          · rintro ⟨rfl, hsame, hage⟩
            exact ⟨fs₀, written, created, readable, rfl, hsame.trans hhash.symm, hage⟩
          · rintro ⟨fs₁, written₁, created₁, readable₁, hop, hsame, hage⟩
            cases hop
            exact ⟨rfl, hsame.trans hhash, hage⟩
      | invalidate written =>
          have hnone := get_of_lookup_none (c := c) hkeeps fs now
          simp [hnone]
      | get fs₀ written now₀ =>
          have hnone := get_of_lookup_none (c := c) hkeeps fs now
          simp [hnone]

/-- A file system with one file, last changed at the given time. -/
def oneFile (file : Path) (changed : Timestamp) : FileSystem where
  present p := p == file
  lstat _ := none
  stat p := if p = file then some ⟨4096, some changed, none, false, false⟩ else none
  listDir _ := []
  readLink _ := none
  realPath p := if p = file then some file else none
  readText _ := none

/-- In a database, the second of two insertions answers for a day, and no longer. -/
theorem get_after_run_iff_database :
    let python : Path := ⟨"/usr/bin/python3"⟩
    let fs := oneFile python ⟨1700000000, 0⟩
    let info : InterpreterInfo :=
      ⟨python, ⟨"/usr"⟩, ⟨some 3, some 11, none, none, some "3.11.4 (main)\n\"x\""⟩, .x64⟩
    let start : Timestamp := ⟨1700000001, 500⟩
    let ops (h : DateText.Readable start) : List Op :=
      [.insert fs python { info with arch := .x86 } start h, .insert fs python info start h,
        .get fs python start]
    (defaultExpiry.totalNanos ≤ Store.longestSpan ∧ Store.database.readable = true ∧
      Store.database.writable = true ∧ DateText.Readable start) ∧
    ∃ h after, run ⟨defaultExpiry⟩ Store.database (ops h) = .ok after ∧
      Cache.get ⟨defaultExpiry⟩ fs after ⟨1700086401, 499⟩ python = some info ∧
      Cache.get ⟨defaultExpiry⟩ fs after ⟨1700086401, 500⟩ python = none := by
  intro python fs info start ops
  have hstart : DateText.Readable start := ⟨by decide, by decide, by decide⟩
  have hspan : defaultExpiry.totalNanos ≤ Store.longestSpan := by decide
  obtain ⟨after, hafter, -, hget⟩ :=
    get_after_run_iff ⟨defaultExpiry⟩ hspan (show Store.database.readable = true from rfl) rfl
      python (ops hstart)
      fun _ => rfl
  have hlast : lastWrite (cacheKey python) (ops hstart) =
      some (.insert fs python info start hstart) := by
    have hsome : (fileHash fs python).isSome = true := rfl
    simp [ops, lastWrite, Op.writes, hsome]
  refine ⟨⟨hspan, rfl, rfl, hstart⟩, hstart, after, hafter, ?_, ?_⟩
  · exact (hget _ _ _).2 ⟨fs, python, start, hstart, hlast, rfl, by decide⟩
  · refine Option.eq_none_iff_forall_ne_some.2 fun found hfound => ?_
    obtain ⟨fs₀, written, created, readable, hop, -, hage⟩ := (hget _ _ _).1 hfound
    obtain ⟨-, -, -, rfl⟩ : fs = fs₀ ∧ python = written ∧ info = found ∧ start = created := by
      simpa [hlast] using hop
    exact absurd hage (by decide)

end Cache

end EnvDiscovery.Resolution
