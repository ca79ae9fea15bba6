import EnvDiscovery.Proofs.Cache

/-!
**Environments as JSON.**

An environment is written as an object of objects, with its times split into seconds and
nanoseconds. Reading it gives the environment back, whether the object is kept as it is or as a
text. Only a time before 1970 cannot be written.

Main definitions:
* `Timestamp.InRange` — the times that files have;
* `EnvRecord.times` — the times in a record.

Main results:
* `Timestamp.ofJson?_toJson?`, `SourceSet.ofJson?_toJson`, `EnvRecord.ofJson?_toJson?` — decoding
  undoes encoding;
* `EnvRecord.toJson?_eq_none_iff` — what has no encoding;
* `EnvRecord.encoding_is_faithful` — **records survive encoding**, as values, as texts and in a
  cache.
-/

namespace EnvDiscovery

/-! ### Times -/

/-- Points in time with seconds of 64 bits and less than a second of nanoseconds. -/
structure Timestamp.InRange (t : Timestamp) : Prop where
  secs_ge : -9223372036854775808 ≤ t.secs
  secs_lt : t.secs < 9223372036854775808
  nanos_lt : t.nanos < nanosPerSec

namespace Timestamp

theorem toJson?_eq_none_iff {t : Timestamp} : t.toJson? = none ↔ t.isBeforeEpoch = true := by
  cases h : t.isBeforeEpoch <;> simp [toJson?, h]

theorem optionToJson?_eq_none_iff {o : Option Timestamp} :
    optionToJson? o = none ↔ ∃ t ∈ o, t.isBeforeEpoch = true := by
  cases o with
  | none => simp [optionToJson?]
  | some t => simp [optionToJson?, toJson?_eq_none_iff]

/-- The encoding of a time since 1970: its seconds are a natural number. -/
theorem exists_of_toJson? {t : Timestamp} {v : Json} (h : t.toJson? = some v) :
    ∃ secs : Nat, t.secs = secs ∧ v = .obj [("secs_since_epoch", .nat secs),
      ("nanos_since_epoch", .nat t.nanos)] := by
  cases hearly : t.isBeforeEpoch with
  | true => simp [toJson?, hearly] at h
  | false =>
      have hsecs : 0 ≤ t.secs := by simpa [isBeforeEpoch] using hearly
      obtain ⟨secs, hnat⟩ := Int.eq_ofNat_of_zero_le hsecs
      have hv : v = .obj [("secs_since_epoch", .int t.secs),
          ("nanos_since_epoch", .nat t.nanos)] := by
        simpa [toJson?, hearly, eq_comm] using h
      exact ⟨secs, hnat, by rw [hv, hnat]; rfl⟩

theorem ofParts?_of_lt {secs nanos : Nat} (hsecs : secs < 9223372036854775808)
    (hnanos : nanos < nanosPerSec) :
    ofParts? secs nanos = some ⟨secs, nanos⟩ := by
  have hcarry : nanos / nanosPerSec = 0 := Nat.div_eq_of_lt hnanos
  simp [ofParts?, hcarry, hsecs, Nat.mod_eq_of_lt hnanos]

/-- **A time is decoded as it was encoded**, to the nanosecond. -/
theorem ofJson?_toJson? {t : Timestamp} (hrange : t.InRange) {v : Json} (h : t.toJson? = some v) :
    ofJson? v = some t := by
  obtain ⟨secs, hsecs, rfl⟩ := exists_of_toJson? h
  obtain ⟨-, hlt, hnanos⟩ := hrange
  rw [hsecs] at hlt
  have hparts : ofParts? secs t.nanos = some t := by
    rw [ofParts?_of_lt (by omega) hnanos, ← hsecs]
  have hsize : secs < UInt64.size := by
    simp only [UInt64.size]
    omega
  have hsize' : t.nanos < UInt32.size := by
    simp only [nanosPerSec] at hnanos
    simp only [UInt32.size]
    omega
  simp [ofJson?, Json.nat, Json.asNatBelow?, hsize, hsize', hparts]

theorem exact_toJson? {t : Timestamp} (hrange : t.InRange) {v : Json} (h : t.toJson? = some v) :
    Json.Exact 1 v := by
  obtain ⟨secs, hsecs, rfl⟩ := exists_of_toJson? h
  obtain ⟨-, hlt, hnanos⟩ := hrange
  simp only [nanosPerSec] at hnanos
  have hint {n : Nat} (hn : n < 9223372036854775808) : Json.Exact 0 (.nat n) :=
    .int (by omega) (by omega)
  refine .obj ?_ (by simp)
  simp [hint (show secs < 9223372036854775808 by omega),
    hint (show t.nanos < 9223372036854775808 by omega)]

/-- A time that may be missing is decoded as it was encoded. -/
theorem optional_optionToJson? {o : Option Timestamp} (hrange : ∀ t ∈ o, t.InRange) {v : Json}
    (h : optionToJson? o = some v) : Json.optional ofJson? (.value v) = some o := by
  cases o with
  | none =>
      obtain rfl : .null = v := Option.some.inj h
      rfl
  | some t =>
      have hdecode := ofJson?_toJson? (hrange t rfl) h
      obtain ⟨secs, -, rfl⟩ := exists_of_toJson? h
      simp [Json.optional, Json.nullable, hdecode]

theorem exact_optionToJson? {o : Option Timestamp} (hrange : ∀ t ∈ o, t.InRange) {v : Json}
    (h : optionToJson? o = some v) : Json.Exact 1 v := by
  cases o with
  | none =>
      obtain rfl : .null = v := Option.some.inj h
      exact .null
  | some t => exact exact_toJson? (hrange t rfl) h

end Timestamp

/-! ### Names -/

theorem EnvKind.ofJson?_name (k : EnvKind) : EnvKind.ofJson? (.str k.name) = some k := by
  cases k <;> decide

theorem EnvSource.asName?_name (x : EnvSource) : Json.asName? all name (.str x.name) = some x := by
  cases x <;> decide

theorem SourceSet.ofList_toList (s : SourceSet) : ofList s.toList = s := by
  obtain ⟨xs, hordered⟩ := s
  simp only [ofList, ofPred, hordered]

theorem Json.asList?_map {α : Type} {encode : α → Json} {decode : Json → Option α}
    (h : ∀ a, decode (encode a) = some a) (xs : List α) :
    asList? decode (.arr (xs.map encode)) = some xs := by
  rw [asList?]
  induction xs with
  | nil => rfl
  | cons x xs ih => simp [h, ih]

/-- **A set of sources is decoded as it was encoded.** -/
theorem SourceSet.ofJson?_toJson (s : SourceSet) : SourceSet.ofJson? s.toJson = some s := by
  have hlist := Json.asList?_map EnvSource.asName?_name s.toList
  have htoJson : s.toJson = .arr (s.toList.map fun x => .str x.name) := by
    simp [SourceSet.toJson, Json.strings, Function.comp_def]
  rw [SourceSet.ofJson?, htoJson, hlist, Option.map_some, ofList_toList]

theorem SourceSet.exact_toJson (s : SourceSet) : Json.Exact 1 s.toJson := by
  refine .arr ?_
  simp [Json.Exact.str]

/-! ### Environments -/

theorem Distro.ofJson?_toJson (d : Distro) : Distro.ofJson? d.toJson = some d := by
  have htext := Json.optional_ofOption Json.asString?_str (by simp)
  simp [Distro.ofJson?, Distro.toJson, htext]

theorem Distro.exact_toJson (d : Distro) : Json.Exact 1 d.toJson := by
  refine .obj ?_ (by simp)
  simp [Json.exact_ofOption (fun _ => Json.Exact.str)]

theorem Path.optional_toJson (o : Option Path) :
    Json.optional ofJson? (.value (.ofOption toJson o)) = some o :=
  Json.optional_ofOption ofJson?_toJson (by simp [toJson]) o

theorem Path.exact_toJson {depth : Nat} (p : Path) : Json.Exact depth p.toJson := .str

namespace Executable

/-- The times of an executable. -/
def times (x : Executable) : List Timestamp :=
  x.ctime.toList ++ x.mtime.toList

theorem toJson?_eq_none_iff {x : Executable} :
    x.toJson? = none ↔ ∃ t ∈ x.times, t.isBeforeEpoch = true := by
  have hparts : x.toJson? = none ↔
      Timestamp.optionToJson? x.ctime = none ∨ Timestamp.optionToJson? x.mtime = none := by
    cases hctime : Timestamp.optionToJson? x.ctime <;>
      cases hmtime : Timestamp.optionToJson? x.mtime <;>
      simp [toJson?, hctime, hmtime]
  rw [hparts, Timestamp.optionToJson?_eq_none_iff, Timestamp.optionToJson?_eq_none_iff]
  simp [times, or_and_right, exists_or]

/-- The encoding of an executable, with those of its times. -/
theorem exists_of_toJson? {x : Executable} {v : Json} (h : x.toJson? = some v) :
    ∃ ctime mtime, Timestamp.optionToJson? x.ctime = some ctime ∧
    Timestamp.optionToJson? x.mtime = some mtime ∧
      v = .obj [("filename", x.filename.toJson), ("sysPrefix", .ofOption Path.toJson x.sysPrefix),
        ("ctime", ctime), ("mtime", mtime)] := by
  obtain ⟨ctime, hctime, h⟩ := Option.bind_eq_some_iff.1 h
  obtain ⟨mtime, hmtime, h⟩ := Option.bind_eq_some_iff.1 h
  exact ⟨ctime, mtime, hctime, hmtime, (Option.some.inj h).symm⟩

theorem ofJson?_toJson? {x : Executable} (hrange : ∀ t ∈ x.times, t.InRange) {v : Json}
    (h : x.toJson? = some v) :
    ofJson? v = some x ∧ Json.Exact 2 v := by
  obtain ⟨ctime, mtime, hctime, hmtime, rfl⟩ := exists_of_toJson? h
  have hc : ∀ t ∈ x.ctime, t.InRange := fun t ht => hrange t (by simp_all [times])
  have hm : ∀ t ∈ x.mtime, t.InRange := fun t ht => hrange t (by simp_all [times])
  constructor
  · simp [ofJson?, Path.optional_toJson, Timestamp.optional_optionToJson? hc hctime,
      Timestamp.optional_optionToJson? hm hmtime]
  · refine .obj ?_ (by simp)
    simp [Path.exact_toJson, Json.exact_ofOption Path.exact_toJson,
      Timestamp.exact_optionToJson? hc hctime, Timestamp.exact_optionToJson? hm hmtime]

end Executable

namespace EnvRecord

/-- The times in a record. -/
def times (e : EnvRecord) : List Timestamp :=
  e.executable.times

/-- **Only a time before 1970 has no encoding.** -/
theorem toJson?_eq_none_iff {e : EnvRecord} :
    e.toJson? = none ↔ ∃ t ∈ e.times, t.isBeforeEpoch = true := by
  rw [times, ← Executable.toJson?_eq_none_iff]
  cases h : e.executable.toJson? <;> simp [toJson?, h]

/-- **A record is decoded as it was encoded**, and its encoding is exact. -/
theorem ofJson?_toJson? {e : EnvRecord} (hrange : ∀ t ∈ e.times, t.InRange) {v : Json}
    (h : e.toJson? = some v) :
    ofJson? v = some e ∧ Json.Exact 3 v := by
  obtain ⟨executable, hexecutable, h⟩ := Option.bind_eq_some_iff.1 h
  obtain rfl := Option.some.inj h
  obtain ⟨hdecode, hexact⟩ := Executable.ofJson?_toJson? hrange hexecutable
  constructor
  · simp [ofJson?, Path.optional_toJson, EnvKind.ofJson?_name, hdecode, Architecture.ofJson?_name,
      Distro.ofJson?_toJson, SourceSet.ofJson?_toJson]
  · refine .obj ?_ (by simp)
    simp [Json.Exact.str, Json.exact_ofOption Path.exact_toJson, hexact, Version.exact_toJson,
      (Distro.exact_toJson e.distro).mono (show 1 ≤ 2 by decide),
      (SourceSet.exact_toJson e.sources).mono (show 1 ≤ 2 by decide)]

open Resolution in
/-- **Records survive encoding.** A record has no encoding if and only if one of its times lies
before 1970. Every other record is decoded from its encoding, and from the text of its encoding, as
it was; so is what an interpreter says. In a cache that keeps texts, the text under the key of an
executable has what its interpreter said. -/
theorem encoding_is_faithful :
    (∀ e : EnvRecord, e.toJson? = none ↔ ∃ t ∈ e.times, t.isBeforeEpoch = true) ∧
    (∀ e : EnvRecord, (∀ t ∈ e.times, t.InRange ∧ t.isBeforeEpoch = false) →
      ∃ v, e.toJson? = some v ∧ EnvRecord.ofJson? v = some e ∧
        (Json.parse? v.render).bind EnvRecord.ofJson? = some e) ∧
    (∀ i : InterpreterInfo, InterpreterInfo.ofJson? i.toJson = some i ∧
      (Json.parse? i.toJson.render).bind InterpreterInfo.ofJson? = some i) ∧
    ∀ (c : Cache) (fs : FileSystem) (store : Store) (executable : Path) (hash : String)
      (i : InterpreterInfo) (created : Timestamp), store.asText = true → store.writable = true →
      fileHash fs executable = some hash → DateText.Readable created →
      ∃ after text, c.insert fs store created executable i = .ok after ∧
        after.entries.lookup (cacheKey executable) = some (.text text) ∧
        (Json.parse? text).bind (Store.Envelope.ofJson? Cache.form) =
          some ⟨some ⟨hash, i⟩, created⟩ := by
  refine ⟨fun e => toJson?_eq_none_iff, fun e htimes => ?_, fun i => ?_, ?_⟩
  · have hsome : e.toJson? ≠ none := by
      rw [Ne, toJson?_eq_none_iff]
      rintro ⟨t, ht, hearly⟩
      simp [(htimes t ht).2] at hearly
    obtain ⟨v, hv⟩ := Option.ne_none_iff_exists'.1 hsome
    obtain ⟨hdecode, hexact⟩ := ofJson?_toJson? (fun t ht => (htimes t ht).1) hv
    refine ⟨v, hv, hdecode, ?_⟩
    rw [Json.parse?_render (hexact.mono (by decide)), Option.bind_some, hdecode]
  · refine ⟨InterpreterInfo.ofJson?_toJson i, ?_⟩
    rw [Json.parse?_render (i.exact_toJson.mono (by decide)), Option.bind_some,
      InterpreterInfo.ofJson?_toJson]
  · intro c fs store executable hash i created htext hwrite hhash hcreated
    let envelope : Store.Envelope (Option Entry) := ⟨some ⟨hash, i⟩, created⟩
    let kept : Store.Entry := .text (envelope.toJson Cache.form).render
    have hinsert : c.insert fs store created executable i =
        .ok { store with entries := Store.put (cacheKey executable) kept store.entries } := by
      rw [Cache.insert, hhash]
      simp only [Store.Scope.write, Store.update, hwrite, htext]
      rfl
    refine ⟨_, _, hinsert, Store.lookup_put_self (cacheKey executable) kept store.entries, ?_⟩
    rw [Json.parse?_render (Store.Envelope.exact_toJson Cache.form_lawful envelope),
      Option.bind_some, Store.Envelope.ofJson?_toJson (Cache.form_lawful.decode_encode _) hcreated]

/-- An environment with a label of several scripts, a name with escapes and the latest time there is
survives; with a time one nanosecond before 1970 it has no encoding. -/
theorem encoding_is_faithful_latest :
    let e : EnvRecord :=
      { name := "a\"b\\c\n\x01 é😀", location := some ⟨"/home/ü/.venv"⟩, kind := .virtualEnvWrapper
        executable := ⟨⟨"/home/ü/.venv/bin/python"⟩, some ⟨""⟩, some ⟨0, 1⟩,
          some ⟨9223372036854775807, 999999999⟩⟩
        version := ⟨some 3, some 4294967295, none, some ⟨.candidate, 2⟩, some "3.13 (main)\n"⟩
        arch := .x86, distro := ⟨some "", none⟩, searchLocation := some ⟨"."⟩
        sources := .ofList [.other, .conda, .pathEnvVar] }
    let early : EnvRecord :=
      { e with executable := { e.executable with ctime := some ⟨-1, 999999999⟩ } }
    ((∀ t ∈ e.times, t.InRange ∧ t.isBeforeEpoch = false) ∧
      ∃ v, e.toJson? = some v ∧ (Json.parse? v.render).bind EnvRecord.ofJson? = some e) ∧
    early.toJson? = none := by
  intro e early
  have htimes : ∀ t ∈ e.times, t.InRange ∧ t.isBeforeEpoch = false := by
    intro t ht
    have hcases : t = ⟨0, 1⟩ ∨ t = ⟨9223372036854775807, 999999999⟩ := by
      simpa [e, times, Executable.times] using ht
    rcases hcases with rfl | rfl
    · exact ⟨⟨by decide, by decide, by decide⟩, rfl⟩
    · exact ⟨⟨by decide, by decide, by decide⟩, rfl⟩
  obtain ⟨v, hv, -, htext⟩ := encoding_is_faithful.2.1 e htimes
  exact ⟨⟨htimes, v, hv, htext⟩,
    (encoding_is_faithful.1 early).2 ⟨⟨-1, 999999999⟩, List.mem_cons_self, rfl⟩⟩

end EnvRecord

end EnvDiscovery
