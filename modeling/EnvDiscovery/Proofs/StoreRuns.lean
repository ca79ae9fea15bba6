import EnvDiscovery.CommandLine.Run
import EnvDiscovery.Proofs.Disk
import Mathlib.Data.Finset.Card
import Mathlib.Data.List.Induction

/-!
**Runs of a store.**

A store in a directory is written, cleared and opened again in any order, directly and through
scopes. It is then a finite map in which the last write under a key counts. A scope reads what was
written last under its key, as long as that can be decoded and is not too old, and its default
otherwise.

Reading is no operation of a run. `Store.get` and `Store.Scope.read` answer without a store, so by
their types they leave it as it is, whether they find a value, none, one that cannot be decoded or
one that is too old; a read may stand between any two operations.

Main definitions:
* `Store.InOrder` — stores that work and have one row for each key;
* `Store.Op`, `Store.runOn` — operations, and runs of them;
* `Store.lastOn` — the last operation of a run on a key;
* `Store.Scope.Counts` — what a scope finds under its key.

Main results:
* `Store.Op.exec_spec`, `Store.run_spec` — one operation and a run;
* `Store.last_writes_count` — **a store is a finite map** of last writes, and a scope reads what it
  holds.
-/

namespace EnvDiscovery

/-! ### Stores in order -/

namespace Store

/-- The store can be read and written, and has one row for each key. -/
structure InOrder (s : Store) : Prop where
  readable : s.readable = true
  writable : s.writable = true
  keys_nodup : (s.entries.map Prod.fst).Nodup

theorem inOrder_database : database.InOrder := ⟨rfl, rfl, List.nodup_nil⟩

theorem get_eq_none_iff {s : Store} (hread : s.readable = true) (key : String) :
    s.get key = .ok none ↔ key ∉ s.entries.map Prod.fst := by
  have hlookup : s.entries.lookup key = none ↔ key ∉ s.entries.map Prod.fst := by
    simp only [List.lookup_eq_none_iff, List.mem_map, not_exists, not_and, bne_iff_ne]
    exact ⟨fun h p hp he => h p hp he.symm, fun h p hp he => h p hp he.symm⟩
  rw [← hlookup, get, hread, if_neg (by decide)]
  cases s.entries.lookup key with
  | none => simp
  | some e => cases hvalue : valueOf key e <;> simp [hvalue, Except.map]

theorem mem_keys_of_put {entries : List (String × Entry)} {key other : String} {e : Entry}
    (hne : other ≠ key) (h : other ∈ (put key e entries).map Prod.fst) :
    other ∈ entries.map Prod.fst := by
  obtain ⟨p, hp, rfl⟩ := List.mem_map.1 h
  have hrest : p ∈ (put key e entries).filter (·.1 != key) :=
    List.mem_filter.2 ⟨hp, by simpa using hne⟩
  rw [filter_put] at hrest
  exact List.mem_map_of_mem (List.mem_of_mem_filter hrest)

theorem nodup_keys_put {entries : List (String × Entry)} (h : (entries.map Prod.fst).Nodup)
    (key : String) (e : Entry) : ((put key e entries).map Prod.fst).Nodup := by
  induction entries with
  | nil => simp [put]
  | cons p entries ih =>
      obtain ⟨k, old⟩ := p
      obtain ⟨hnew, hrest⟩ := List.nodup_cons.1 h
      rw [put]
      split
      case isTrue => exact h
      case isFalse hk =>
        exact List.nodup_cons.2 ⟨fun hmem => hnew (mem_keys_of_put hk hmem), ih hrest⟩

namespace InOrder

variable {s : Store}

/-- **The size is the number of live keys.** -/
theorem exists_live (h : s.InOrder) :
    ∃ live : Finset String, (∀ key, key ∈ live ↔ s.get key ≠ .ok none) ∧ s.size = live.card := by
  refine ⟨(s.entries.map Prod.fst).toFinset, fun key => ?_, ?_⟩
  · rw [List.mem_toFinset, Ne, get_eq_none_iff h.readable, not_not]
  · rw [List.toFinset_card_of_nodup h.keys_nodup, List.length_map, size]

theorem update (h : s.InOrder) (key : String) {v : Json} (hv : Json.parse? v.render = some v) :
    ∃ t, s.update key v = .ok t ∧ t.InOrder ∧ t.get key = .ok (some v) ∧ SameExcept key s t := by
  obtain ⟨t, ht, hsame, hholds⟩ := update_spec h.writable key hv
  have hread : t.readable = true := hsame.readable_eq.trans h.readable
  have hentries : t.entries = put key (if s.asText then .text v.render else .value v)
      s.entries := by
    simp only [Store.update, h.writable, Bool.not_true, Bool.false_eq_true, if_false,
      Except.ok.injEq] at ht
    rw [← ht]
  refine ⟨t, ht, ⟨hread, hsame.writable_eq.trans h.writable, ?_⟩, hholds.get hread, hsame⟩
  rw [hentries]
  exact nodup_keys_put h.keys_nodup key _

theorem remove (h : s.InOrder) (key : String) :
    ∃ t, s.remove key = .ok t ∧ t.InOrder ∧ t.get key = .ok none ∧ SameExcept key s t := by
  obtain ⟨t, ht, hsame, hnone⟩ := remove_spec h.writable key
  have hread : t.readable = true := hsame.readable_eq.trans h.readable
  have hentries : t.entries = s.entries.filter (·.1 != key) := by
    simp only [Store.remove, h.writable, Bool.not_true, Bool.false_eq_true, if_false,
      Except.ok.injEq] at ht
    rw [← ht]
  refine ⟨t, ht, ⟨hread, hsame.writable_eq.trans h.writable, ?_⟩, ?_, hsame⟩
  · rw [hentries]
    exact h.keys_nodup.sublist (List.filter_sublist.map _)
  · rw [Store.get, hread, if_neg (by decide), hnone]

theorem clear (h : s.InOrder) : s.clear.2.InOrder :=
  ⟨h.readable, h.writable, List.nodup_nil⟩

theorem get_clear (h : s.InOrder) (key : String) : s.clear.2.get key = .ok none := by
  simp [Store.get, Store.clear, h.readable]

end InOrder

/-! ### Operations -/

/-- A disk and a store that is open on it. -/
structure Mounted where
  disk : Disk
  opened : OpenStore

namespace Mounted

/-- The store that is open. -/
def store (a : Mounted) : Store := a.opened.store

/-- The same with another store in its place. -/
def withStore (a : Mounted) (s : Store) : Mounted :=
  { a with opened := { a.opened with store := s } }

/-- The same after the directory of the store is opened again. -/
def reopened (a : Mounted) : Mounted :=
  let (disk, opened) := (a.disk.save a.opened).openStore a.opened.directory
  ⟨disk, opened⟩

end Mounted

/-- An operation on a store that is kept in a directory. -/
inductive Op : Type 1 where
  | update (key : String) (v : Json)
  | write {α : Type} (c : Scope α) (value : α) (created : Timestamp)
  | remove (key : String)
  | clear
  | reopen

namespace Op

/-- What is there after an operation. -/
def exec (a : Mounted) : Op → Except StorageFailure Mounted
  | update key v => (a.store.update key v).map a.withStore
  | write c value created => (c.write a.store value created).map a.withStore
  | remove key => (a.store.remove key).map a.withStore
  | clear => .ok (a.withStore a.store.clear.2)
  | reopen => .ok a.reopened

/-- Whether an operation decides what stands under the key. -/
def concerns (key : String) : Op → Bool
  | update k _ | remove k => k == key
  | write c _ _ => c.key == key
  | clear => true
  | reopen => false

/-- What an operation leaves under the keys that it concerns. -/
def leaves : Op → Option Json
  | update _ v => some v
  | write c value created => some (Envelope.toJson c.form ⟨value, created⟩)
  | remove _ | clear | reopen => none

/-- What the operation writes is read from its text. -/
def RoundTrips (op : Op) : Prop :=
  ∀ v ∈ op.leaves, Json.parse? v.render = some v

theorem roundTrips_of_exact {op : Op} (h : ∀ v ∈ op.leaves, Json.Exact 127 v) : op.RoundTrips :=
  fun v hv => Json.parse?_render (h v hv)

/-- **One operation** decides what stands under the keys that it concerns, and leaves the others
alone. -/
theorem exec_spec {a : Mounted} {dir : Path} {place : FileTree.Place}
    (hseats : a.disk.Seats a.opened dir place) (h : a.store.InOrder) {op : Op}
    (hop : op.RoundTrips) :
    ∃ after, op.exec a = .ok after ∧ after.disk.Seats after.opened dir place ∧ after.store.InOrder ∧
      ∀ key, after.store.get key = if op.concerns key then .ok op.leaves else a.store.get key := by
  cases op with
  | update k v =>
      obtain ⟨s, hs, horder, hget, hsame⟩ := h.update k (hop v rfl)
      exact ⟨a.withStore s, by simp [exec, hs, Except.map], hseats.withStore s, horder,
        hsame.get_cases hget⟩
  | write c value created =>
      obtain ⟨s, hs, horder, hget, hsame⟩ := h.update c.key (hop _ rfl)
      exact ⟨a.withStore s, by simp [exec, Scope.write, hs, Except.map], hseats.withStore s, horder,
        hsame.get_cases hget⟩
  | remove k =>
      obtain ⟨s, hs, horder, hget, hsame⟩ := h.remove k
      exact ⟨a.withStore s, by simp [exec, hs, Except.map], hseats.withStore s, horder,
        hsame.get_cases hget⟩
  | clear => exact ⟨_, rfl, hseats.withStore _, h.clear, h.get_clear⟩
  | reopen =>
      have hback : a.reopened = ⟨a.disk.save a.opened, a.opened⟩ := by
        rw [Mounted.reopened, hseats.openStore_save]
      exact ⟨_, congrArg Except.ok hback, hseats.save, h, fun key => rfl⟩

end Op

/-! ### Runs -/

/-- What is there after a list of operations. -/
def runOn (a : Mounted) (ops : List Op) : Except StorageFailure Mounted :=
  ops.foldlM Op.exec a

/-- The last operation that concerns a key. -/
def lastOn (key : String) (ops : List Op) : Option Op :=
  (ops.filter (Op.concerns key)).getLast?

theorem lastOn_concat (key : String) (ops : List Op) (op : Op) :
    lastOn key (ops ++ [op]) = if op.concerns key then some op else lastOn key ops :=
  getLast?_filter_concat (Op.concerns key) ops op

/-- **A run** succeeds, and leaves under each key what the last operation on it left there. -/
theorem run_spec {a : Mounted} {dir : Path} {place : FileTree.Place}
    (hseats : a.disk.Seats a.opened dir place) (h : a.store.InOrder) {ops : List Op}
    (hops : ∀ op ∈ ops, op.RoundTrips) :
    ∃ after, runOn a ops = .ok after ∧ after.disk.Seats after.opened dir place ∧
    after.store.InOrder ∧
      ∀ key, after.store.get key = (lastOn key ops).elim (a.store.get key) fun op =>
        .ok op.leaves := by
  -- from the right: the last operation concerns the key, or leaves it to the ones before
  induction ops using List.reverseRecOn with
  | nil => exact ⟨a, rfl, hseats, h, fun key => rfl⟩
  | append_singleton ops op ih =>
      obtain ⟨mid, hmid, hmidSeats, hmidOrder, hmidGet⟩ :=
        ih fun other hother => hops other (List.mem_append_left _ hother)
      obtain ⟨after, hafter, hseats', horder, hget⟩ :=
        Op.exec_spec hmidSeats hmidOrder (hops op (List.mem_append_right _ List.mem_cons_self))
      refine ⟨after, ?_, hseats', horder, fun key => ?_⟩
      · rw [runOn] at hmid ⊢
        simp only [List.foldlM_append, hmid, List.foldlM_cons, List.foldlM_nil, bind_pure]
        exact hafter
      · rw [hget, hmidGet, lastOn_concat]
        split
        case isTrue => rfl
        case isFalse => rfl

theorem lastOn_filter (key : String) (ops : List Op) :
    lastOn key (ops.filter (Op.concerns key)) = lastOn key ops := by
  simp [lastOn, List.filter_filter]

/-! ### Scopes -/

section Scopes

variable {α : Type}

/-- The scope finds the envelope under its key, and it is not too old. -/
def Scope.Counts (c : Scope α) (s : Store) (now : Timestamp) (e : Envelope α) : Prop :=
  ∃ v, s.get c.key = .ok (some v) ∧ Envelope.ofJson? c.form v = some e ∧
    ∀ d ∈ c.expiry, nanosBetween e.created now < maxAge d

theorem isExpired_eq_false_iff {expiry : Option Duration} {now : Timestamp} {e : Envelope α} :
    isExpired expiry now e = false ↔ ∀ d ∈ expiry, nanosBetween e.created now < maxAge d := by
  cases expiry <;> simp [isExpired]

theorem Scope.read_of_counts {c : Scope α} {s : Store} {now : Timestamp} {e : Envelope α}
    (h : c.Counts s now e) :
    c.read s now = e.value := by
  obtain ⟨v, hget, hdecode, hage⟩ := h
  simp [Scope.read, hget, hdecode, isExpired_eq_false_iff.2 hage]

theorem Scope.read_of_not_counts {c : Scope α} {s : Store} {now : Timestamp}
    (h : ∀ e, ¬ c.Counts s now e) :
    c.read s now = c.default := by
  unfold Scope.read
  split
  case h_1 | h_2 => rfl
  case h_3 v hget =>
    split
    case h_1 => rfl
    case h_2 e hdecode =>
      split
      case isTrue => rfl
      case isFalse hage =>
        rw [Bool.not_eq_true, isExpired_eq_false_iff] at hage
        exact absurd ⟨v, hget, hdecode, hage⟩ (h e)

/-- An envelope that can be decoded counts as long as it is not too old. -/
theorem Scope.counts_iff {c : Scope α} {s : Store} {e : Envelope α}
    (hget : s.get c.key = .ok (some (e.toJson c.form)))
    (hdecode : c.form.decode (.value (c.form.encode e.value)) = some e.value)
    (hcreated : DateText.Readable e.created) (now : Timestamp) (found : Envelope α) :
    c.Counts s now found ↔ found = e ∧ ∀ d ∈ c.expiry, nanosBetween e.created now < maxAge d := by
  have hback := Envelope.ofJson?_toJson hdecode hcreated
  constructor
  · rintro ⟨v, hv, hfound, hage⟩
    obtain rfl : e.toJson c.form = v := by simpa [hget] using hv
    obtain rfl : e = found := by simpa [hback] using hfound
    exact ⟨rfl, hage⟩
  · rintro ⟨rfl, hage⟩
    exact ⟨_, hget, hback, hage⟩

end Scopes

/-- **A store is a finite map of last writes.** Any run over a store in a directory succeeds. Under
each key then stands what the last operation on it left there, and what stood there at the start if
there was none; operations on other keys do not matter. The size is the number of live keys, which
is what clearing reports. A scope reads what counts under its key, whoever wrote it, and its default
in all other cases; what was written last through a scope counts until it expires. -/
theorem last_writes_count {d d₀ : Disk} {dir : Path} {o : OpenStore}
    (hopen : d.openIn dir = some (d₀, o)) (hstart : o.store.InOrder) (ops : List Op)
    (hops : ∀ op ∈ ops, op.RoundTrips) :
    (∃ after, runOn ⟨d₀, o⟩ ops = .ok after ∧
      (∀ key, after.store.get key = (lastOn key ops).elim (o.store.get key) fun op =>
        .ok op.leaves) ∧
      (∀ key, ∃ alone, runOn ⟨d₀, o⟩ (ops.filter (Op.concerns key)) = .ok alone ∧
        alone.store.get key = after.store.get key) ∧
      (∃ live : Finset String, (∀ key, key ∈ live ↔ after.store.get key ≠ .ok none) ∧
        after.store.size = live.card ∧ after.store.clear.1 = live.card ∧
        cacheText after.opened .clear =
          "Removed " ++ Text.decimal live.card ++ " cached entries from " ++ dir.shown ++ "\n") ∧
      after.store.clear.2.size = 0 ∧ (∀ key, after.store.clear.2.get key = .ok none) ∧
      ∀ (α : Type) (c written : Scope α) (e : Envelope α), written.form = c.form →
        lastOn c.key ops = some (.write written e.value e.created) →
        c.form.decode (.value (c.form.encode e.value)) = some e.value →
          DateText.Readable e.created →
        ∀ now found, c.Counts after.store now found ↔
          found = e ∧ ∀ d ∈ c.expiry, nanosBetween e.created now < maxAge d) ∧
    ∀ (α : Type) (c : Scope α) (s : Store) (now : Timestamp),
      (∀ e, c.Counts s now e → c.read s now = e.value) ∧
      ((∀ e, ¬ c.Counts s now e) → c.read s now = c.default) := by
  obtain ⟨place, hseats, -⟩ := Disk.seats_of_openIn hopen
  obtain ⟨after, hafter, hseats', horder, hget⟩ := run_spec (a := ⟨d₀, o⟩) hseats hstart hops
  obtain ⟨live, hlive, hsize⟩ := horder.exists_live
  refine ⟨⟨after, hafter, hget, fun key => ?_, ⟨live, hlive, hsize, hsize, ?_⟩, rfl,
    horder.get_clear, fun α c written e hform hlast hdecode hcreated now found => ?_⟩,
    fun α c s now => ⟨fun e => Scope.read_of_counts, Scope.read_of_not_counts⟩⟩
  · have hfew : ∀ op ∈ ops.filter (Op.concerns key), op.RoundTrips :=
      fun op hop => hops op (List.mem_of_mem_filter hop)
    obtain ⟨alone, halone, -, -, hgetAlone⟩ := run_spec (a := ⟨d₀, o⟩) hseats hstart hfew
    refine ⟨alone, halone, ?_⟩
    rw [hgetAlone, lastOn_filter, hget]
  · have hremoved : after.opened.store.clear.1 = live.card := hsize
    simp [cacheText, cacheText.location, hremoved, hseats'.directory_eq]
  · refine Scope.counts_iff ?_ hdecode hcreated now found
    rw [hget, hlast, ← hform]
    rfl

/-- A directory can be made in an empty tree, with a database in it. -/
theorem isSome_openIn_empty : (Disk.openIn ⟨.empty, []⟩ ⟨"/store"⟩).isSome = true := by
  have hsegments : (⟨"/store"⟩ : Path).segments = ["", "store"] := by decide +kernel
  have hstore := FileTree.locate_eq_walk hsegments rfl rfl
  have hroot : FileTree.empty.locate true ⟨"/"⟩ = some [] := by
    have hsegments : (⟨"/"⟩ : Path).segments = ["", ""] := by decide +kernel
    rw [FileTree.locate_eq_walk hsegments rfl rfl]
    simp [FileTree.walk, FileTree.isDirAt, FileTree.node?, Path.isTrivial]
  have hmissing : ∀ follow, FileTree.empty.locate follow ⟨"/store"⟩ = none := by
    simp [hstore, FileTree.walk, FileTree.isDirAt, FileTree.node?, Path.isTrivial, FileTree.empty]
  have hfound : ∀ t : FileTree, t.node? ["store"] = some (.dir true) →
      t.locate true ⟨"/store"⟩ = some ["store"] := by
    intro t ht
    have hbase : t.isDirAt [] = true := rfl
    simp [hstore, FileTree.walk, hbase, Path.isTrivial, ht]
  -- the root is there, and the directory is made in it
  have hmade : Disk.makeDir .empty ((⟨"/store"⟩ : Path).components.length + 1) ⟨"/store"⟩ =
      some (FileTree.empty.put ["store"] (.dir true)) := by
    have hlength : (⟨"/store"⟩ : Path).components.length = 2 := by decide +kernel
    have hparent : (⟨"/store"⟩ : Path).parent? = some ⟨"/"⟩ := by decide +kernel
    have hname : (⟨"/store"⟩ : Path).fileName? = some "store" := by decide +kernel
    simp [hlength, Disk.makeDir, hmissing, hroot, hparent, hname, FileTree.isDirAt, FileTree.node?]
  set t := FileTree.empty.put ["store"] (.dir true) with ht
  have hdir : t.node? ["store"] = some (.dir true) := FileTree.node?_put_self _ (by simp) _
  set u := t.put ["README", "store"] (.text CacheDirectory.readme) with hu
  have hdir' : u.node? ["store"] = some (.dir true) :=
    (FileTree.node?_put_of_ne _ (by simp) _).trans hdir
  have hfile : u.node? [CacheDirectory.databaseFile, "store"] = none := by
    rw [hu, FileTree.node?_put_of_ne _ (by decide), ht, FileTree.node?_put_of_ne _ (by simp)]
    rfl
  have hwith : Disk.withDirectory .empty ⟨"/store"⟩ = some u := by
    simp [Disk.withDirectory, hmissing, hmade, hfound t hdir, hu]
  have hplace : Disk.databasePlace u ⟨"/store"⟩ = some [CacheDirectory.databaseFile, "store"] := by
    simp [Disk.databasePlace, hfound u hdir', FileTree.isDirAt, hdir', hfile]
  simp [Disk.openIn, hwith, hplace]

/-- In a new directory: what is written through a scope replaces what was written before, is still
there after the directory is opened again, and is gone after a minute. -/
theorem last_writes_count_reopened :
    let tally : Scope Json := ⟨.json, "tally", .null, some ⟨60, 0⟩⟩
    let start : Timestamp := ⟨1700000000, 5⟩
    let ops : List Op :=
      [.update "tally" (.str "x"), .update "other" .null, .write tally (.int 7) start, .reopen,
        .remove "other"]
    ∃ d₀ o after, (Disk.openIn ⟨.empty, []⟩ ⟨"/store"⟩ = some (d₀, o) ∧ o.store.InOrder ∧
        (∀ op ∈ ops, op.RoundTrips) ∧ DateText.Readable start) ∧
      runOn ⟨d₀, o⟩ ops = .ok after ∧ after.store.get "other" = .ok none ∧
      tally.read after.store ⟨1700000060, 4⟩ = .int 7 ∧
        tally.read after.store ⟨1700000060, 5⟩ = .null := by
  intro tally start ops
  obtain ⟨⟨d₀, o⟩, hopen⟩ := Option.isSome_iff_exists.1 isSome_openIn_empty
  obtain ⟨place, -, hstore⟩ := Disk.seats_of_openIn hopen
  have horder : o.store.InOrder := by
    rw [hstore]
    exact inOrder_database
  have hstart : DateText.Readable start := ⟨by decide, by decide, by decide⟩
  have hkept : Json.Exact 127 (Envelope.toJson .json ⟨.int 7, start⟩) := by
    refine .obj ?_ (by simp)
    simp [Form.json, Json.Exact.str, Json.Exact.int]
  have hops : ∀ op ∈ ops, op.RoundTrips := by
    have hexact : ∀ op ∈ ops, ∀ v ∈ op.leaves, Json.Exact 127 v := by
      simpa [ops, Op.leaves, Json.Exact.str, Json.Exact.null] using hkept
    exact fun op hop => Op.roundTrips_of_exact (hexact op hop)
  obtain ⟨⟨after, hafter, hget, -, -, -, -, hscope⟩, hread⟩ :=
    last_writes_count hopen horder ops hops
  have hcounts :=
    hscope Json tally tally ⟨.int 7, start⟩ rfl (by simp [ops, lastOn, Op.concerns, tally]) rfl
      hstart
  refine ⟨d₀, o, after, ⟨hopen, horder, hops, hstart⟩, hafter, ?_, ?_, ?_⟩
  · rw [hget]
    simp [ops, lastOn, Op.concerns, Op.leaves, tally]
  · exact (hread Json tally after.store _).1 ⟨.int 7, start⟩ ((hcounts _ _).2 ⟨rfl, by decide⟩)
  · refine (hread Json tally after.store _).2 fun e he => ?_
    have hage := ((hcounts _ e).1 he).2 ⟨60, 0⟩ rfl
    exact absurd hage (by decide)

end Store

end EnvDiscovery
