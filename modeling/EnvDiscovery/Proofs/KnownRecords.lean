import EnvDiscovery.Proofs.Listed
import EnvDiscovery.Proofs.NativeRoots
import EnvDiscovery.Proofs.Recognised
import Mathlib.Data.List.Pairwise

/-!
**What is known of the environments.**

Listings and resolutions leave their records behind under the keys of their executables. On a
coherent file system the records of one answer are about different environments. But an environment
may be answered twice, by a link in one answer and directly in another, and then it is known twice:
what is known has each key once, and not each file. An unrestricted listing forgets everything
before it.

Main definitions:
* `Locator.KeepsPlace` — what a source recognises has the key of the executable that it was asked
  about;
* `Known.Keyed` — every record stands under its own key, and each key once;
* `FileSystem.SameFile`, `FileSystem.Apart` — paths with one key or one real path, and records that
  differ in both;
* `Composite.Reached` — what can be known, and the answers it comes from;
* `Session.Request`, `Session.askFrom` — listings and resolutions of a session, in any order.

Main results:
* `Locator.keepsPlace` — the sources that search the machine never move the executable they are
  asked about;
* `Composite.Reached.recalls` — the invariant of asking: under each key stands the last record that
  was answered;
* `Composite.Recalls.apart_iff` — when each file is known once;
* `Session.reached_askFrom` — what a session knows can be reached;
* `Composite.known_records_have_own_keys` — **each key is known once**, and each file if it was
  answered under one key;
* `Session.link_and_target_are_both_known` — an environment that is known twice.
-/

namespace EnvDiscovery

/-! ### Records under their own keys -/

namespace Known

variable {k : Known} {key : String} {e : EnvRecord} {es : List EnvRecord}

/-- Every record stands under the key of its executable, and each key is there once. -/
structure Keyed (k : Known) : Prop where
  nodup : (k.entries.map Prod.fst).Nodup
  own : ∀ x ∈ k.entries, x.2.path.key = x.1

theorem keyed_empty : Keyed empty := ⟨List.nodup_nil, by simp [empty]⟩

theorem Keyed.insert (h : k.Keyed) (e : EnvRecord) : (k.insert e.path.key e).Keyed where
  nodup := by
    rw [Known.insert, List.map_append]
    refine List.Nodup.append (h.nodup.sublist (List.filter_sublist.map _)) (List.nodup_singleton _)
      ?_
    simp
  own := by
    intro x hx
    rw [Known.insert, List.mem_append, List.mem_singleton] at hx
    rcases hx with hx | rfl
    · exact h.own x (List.mem_of_mem_filter hx)
    · rfl

theorem Keyed.insertAll (h : k.Keyed) (es : List EnvRecord) : (k.insertAll es).Keyed := by
  induction es generalizing k with
  | nil => exact h
  | cons e es ih =>
      rw [insertAll_cons]
      exact ih (h.insert e)

theorem Keyed.remember (h : k.Keyed) (q : Query) (es : List EnvRecord) :
    (k.remember q es).Keyed := by
  rw [Known.remember]
  split
  · exact keyed_empty.insertAll es
  · exact h.insertAll es

theorem Keyed.get?_eq_some_iff (h : k.Keyed) : k.get? key = some e ↔ (key, e) ∈ k.entries := by
  rw [get?, List.lookup_eq_some_iff]
  constructor
  · rintro ⟨before, after, hsplit, -⟩
    simp [hsplit]
  · intro hmem
    obtain ⟨before, after, hsplit⟩ := List.append_of_mem hmem
    have hnodup := h.nodup
    rw [hsplit, List.map_append, List.map_cons] at hnodup
    refine ⟨before, after, hsplit, fun x hx => ?_⟩
    have hne : x.1 ≠ key := fun heq =>
      (List.disjoint_of_nodup_append hnodup) (List.mem_map_of_mem hx) (by simp [heq])
    simpa using hne.symm

theorem Keyed.key_of_get? (h : k.Keyed) (hget : k.get? key = some e) : e.path.key = key :=
  h.own (key, e) (h.get?_eq_some_iff.1 hget)

theorem records_perm (k : Known) : k.records.Perm (k.entries.map Prod.snd) :=
  List.mergeSort_perm _ _

theorem Keyed.mem_records_iff (h : k.Keyed) : e ∈ k.records ↔ k.get? e.path.key = some e := by
  rw [h.get?_eq_some_iff, k.records_perm.mem_iff, List.mem_map]
  constructor
  · rintro ⟨x, hx, rfl⟩
    rw [h.own x hx]
    exact hx
  · intro hmem
    exact ⟨_, hmem, rfl⟩

theorem Keyed.nodup_keys (h : k.Keyed) : (k.records.map (·.path.key)).Nodup := by
  rw [(k.records_perm.map _).nodup_iff, List.map_map]
  have hkeys : k.entries.map ((·.path.key) ∘ Prod.snd) = k.entries.map Prod.fst :=
    List.map_congr_left h.own
  rw [hkeys]
  exact h.nodup

/-- Records with different keys hide what was known under these keys. -/
theorem get?_insertAll (hkeys : (es.map (·.path.key)).Nodup) (k : Known) (key : String) :
    (k.insertAll es).get? key = (es.find? (·.path.key == key)).or (k.get? key) := by
  cases hfind : es.find? (·.path.key == key) with
  | some e =>
      obtain rfl : e.path.key = key := by simpa using List.find?_some hfind
      exact get?_insertAll_of_mem hkeys (List.mem_of_find?_eq_some hfind) k
  | none =>
      refine get?_insertAll_of_notMem (fun hmem => ?_) k
      obtain ⟨e, he, hkey⟩ := List.mem_map.1 hmem
      exact List.find?_eq_none.1 hfind e he (by simpa using hkey)

end Known

/-! ### Executables stay where they are -/

section Sources

variable {s : Surroundings} {executable : Path} {e : EnvRecord}

theorem Surroundings.path_of_resolveGlobal {dirs known : List Path} {source : EnvSource}
    (h : s.resolveGlobal dirs known source executable = some e) : e.path = executable := by
  obtain ⟨parent, -, h⟩ := Option.bind_eq_some_iff.1 h
  obtain ⟨-, h⟩ := Option.ite_none_right_eq_some.1 h
  rw [← Option.some.inj h, globalRecord_path]

theorem GlobalVirtualEnvs.path_of_resolve {extra : List Path}
    (h : resolve s extra executable = some e) :
    e.path = executable := by
  obtain ⟨home, -, h⟩ := Option.bind_eq_some_iff.1 h
  obtain ⟨parent, -, h⟩ := Option.bind_eq_some_iff.1 h
  obtain ⟨-, h⟩ := Option.ite_none_right_eq_some.1 h
  rw [← Option.some.inj h]
  rfl

theorem RootVirtualEnvs.path_of_resolve {root : Path} (h : resolve s root executable = some e) :
    e.path = executable := by
  obtain ⟨home, -, h⟩ := Option.bind_eq_some_iff.1 h
  obtain ⟨parent, -, h⟩ := Option.bind_eq_some_iff.1 h
  obtain ⟨-, h⟩ := Option.ite_none_right_eq_some.1 h
  rw [← Option.some.inj h]
  rfl

theorem Pyenv.path_of_resolve (h : resolve s executable = some e) : e.path = executable := by
  obtain ⟨dir, -, h⟩ := Option.bind_eq_some_iff.1 h
  obtain ⟨home, -, h⟩ := Option.bind_eq_some_iff.1 h
  obtain ⟨parent, -, h⟩ := Option.bind_eq_some_iff.1 h
  obtain ⟨-, h⟩ := Option.ite_none_right_eq_some.1 h
  obtain ⟨found, -, rfl⟩ := Option.map_eq_some_iff.1 h
  rfl

theorem Conda.path_of_resolve (h : resolve s executable = some e) : e.path = executable := by
  obtain ⟨kind, -, h⟩ := Option.bind_eq_some_iff.1 h
  obtain ⟨home, -, h⟩ := Option.bind_eq_some_iff.1 h
  rw [← Option.some.inj h]
  rfl

end Sources

/-- A source never moves the executable that it is asked about: what it recognises has the same
key. -/
def Locator.KeepsPlace (l : Locator) : Prop :=
  ∀ s executable e, l.resolve s executable = some e → e.path.key = executable.key

/-- The sources that search the machine keep executables where they are. -/
theorem Locator.keepsPlace {l : Locator} (hl : ∀ source, l ≠ .fixed source) : l.KeepsPlace := by
  intro s executable e h
  cases l with
  | conda => rw [Conda.path_of_resolve h]
  | globalVirtualEnvs => rw [GlobalVirtualEnvs.path_of_resolve h]
  | pyenv => rw [Pyenv.path_of_resolve h]
  | knownPaths | searchPath => rw [Surroundings.path_of_resolveGlobal h]
  | rootVirtualEnvs => rw [RootVirtualEnvs.path_of_resolve h]
  | registry => cases h
  | fixed source => exact absurd rfl (hl source)

namespace Composite

theorem key_candidate (s : Surroundings) {sources : List Locator}
    (hsources : ∀ l ∈ sources, l.KeepsPlace) (ref : EnvRef) :
    (candidate s sources ref).path.key = ref.executable.key := by
  cases ref with
  | record e => rfl
  | path executable =>
      rw [candidate, identify]
      cases h : sources.findSome? (·.resolve s executable) with
      | none =>
          rw [Option.getD_none, Surroundings.globalRecord_path]
          rfl
      | some e =>
          obtain ⟨l, hmem, hl⟩ := List.exists_of_findSome?_eq_some h
          exact hsources l hmem s executable e hl

/-- A resolution that gives a record found it among what is known, or puts it there under its own
key. -/
theorem known_of_resolve {r : Resolver} {sources : List Locator}
    (hsources : ∀ l ∈ sources, l.KeepsPlace) {store : Store} {known : Known} {ref : EnvRef}
    {e : EnvRecord} (h : (resolve r sources store known ref).value.result = .ok (some e)) :
    ((resolve r sources store known ref).value.known = known ∧
      known.get? ref.executable.key = some e) ∨
      (resolve r sources store known ref).value.known = known.insert e.path.key e := by
  cases hfile : r.machine.fs.isFile ref.executable with
  | false => simp [resolve, hfile, pure, Traced.pure] at h
  | true =>
      cases hknown : (known.get? ref.executable.key).filter (·.isResolved) with
      | some d =>
          left
          obtain ⟨hget, -⟩ := Option.filter_eq_some_iff.1 hknown
          simp only [resolve, hfile, hknown] at h ⊢
          obtain rfl : d = e := Option.some.inj (Except.ok.inj h)
          exact ⟨rfl, hget⟩
      | none =>
          right
          have hrecord := r.record_result store (candidate r.machine.toSurroundings sources ref)
          have hkey := key_candidate r.machine.toSurroundings hsources ref
          simp only [resolve, hfile, hknown, bind, Traced.bind] at h ⊢
          generalize r.record store (candidate r.machine.toSurroundings sources ref) =
            out at h hrecord ⊢
          generalize (r.interpreter store _).value.result = answer at hrecord
          obtain ⟨⟨result, after⟩, calls⟩ := out
          obtain rfl : result = _ := hrecord
          rcases answer with f | _ | info
          · cases h
          · cases h
          · obtain rfl := Option.some.inj (Except.ok.inj h)
            rw [Resolver.withTimes_path, EnvRecord.complete_path, hkey]
            rfl

end Composite

/-! ### Files -/

namespace FileSystem

/-- Two paths are those of one environment: they have one key or one real path. -/
def SameFile (fs : FileSystem) (p q : Path) : Prop :=
  p.key = q.key ∨ ∃ real, fs.realPath p = some real ∧ fs.realPath q = some real

/-- Two records are about different environments. -/
def Apart (fs : FileSystem) (d e : EnvRecord) : Prop := ¬fs.SameFile d.path e.path

instance (fs : FileSystem) : Std.Symm fs.Apart where
  symm := by
    rintro d e h (hkey | ⟨real, he, hd⟩)
    · exact h (.inl hkey.symm)
    · exact h (.inr ⟨real, hd, he⟩)

/-- On a coherent file system a path may be spelled in another way. -/
theorem SameFile.congr {fs : FileSystem} (hc : Coherent fs.realPath) {p q p' q' : Path}
    (h : fs.SameFile p q) (hp : p'.key = p.key) (hq : q'.key = q.key) : fs.SameFile p' q' := by
  rcases h with hkey | ⟨real, hreal, hreal'⟩
  · exact .inl (by rw [hp, hkey, hq])
  · exact .inr ⟨real, by rw [hc.of_key _ _ hp, hreal], by rw [hc.of_key _ _ hq, hreal']⟩

end FileSystem

namespace Composite

variable {fs : FileSystem} {q : Query} {found es : List EnvRecord} {log : List (List EnvRecord)}
  {known : Known}

/-- Records of one file have one identity. -/
theorem identity_eq_of_sameFile (hc : Coherent fs.realPath) {d e : EnvRecord}
    (h : fs.SameFile d.path e.path) :
    EnvSet.identity fs.realPath d = EnvSet.identity fs.realPath e := by
  rcases h with hkey | ⟨real, hd, he⟩
  · exact EnvSet.identity_eq_of_common_key hc (EnvSet.mem_keysOf.2 (.inl rfl))
      (EnvSet.mem_keysOf.2 (.inl hkey))
  · rw [EnvSet.identity_of_some hd, EnvSet.identity_of_some he]

/-- The records of a listing are about different environments. -/
theorem Completion.apart (h : Completion fs (collect fs q found) es) (hc : Coherent fs.realPath) :
    es.Pairwise fs.Apart := by
  have hfiles : ((collect fs q found).map (EnvSet.identity fs.realPath)).Nodup := by
    rw [collect, (EnvSet.represents_ofList hc _).map_identity]
    exact EnvSet.nodup_identities _ _
  have hpaths : ((collect fs q found).map EnvRecord.path).Pairwise fun p q => ¬fs.SameFile p q := by
    rw [List.Nodup, List.pairwise_map] at hfiles
    rw [List.pairwise_map]
    exact hfiles.imp fun {d e} hne hsame => hne (identity_eq_of_sameFile hc hsame)
  have hes := hpaths.sublist h.paths_sublist
  rw [List.pairwise_map] at hes
  exact hes

/-! ### Asking again and again -/

/-- What is known after listings and resolutions on one file system, whatever the sources report,
the interpreters answer and the store holds, and the answers since the last unrestricted listing,
the last one first. The sources that are asked about an executable keep it in its place. -/
inductive Reached (fs : FileSystem) : List (List EnvRecord) → Known → Prop where
  /-- Nothing was asked. -/
  | start : Reached fs [] .empty
  /-- A listing comes to an end. -/
  | listed {log : List (List EnvRecord)} {known : Known} (h : Reached fs log known) {q : Query}
      {found es : List EnvRecord} (hes : Completion fs (collect fs q found) es) :
      Reached fs (if q = .all then [es] else es :: log) (known.remember q es)
  /-- A resolution gives a record. -/
  | resolved {log : List (List EnvRecord)} {known : Known} (h : Reached fs log known) {r : Resolver}
      (hfs : r.machine.fs = fs) {sources : List Locator} (hsources : ∀ l ∈ sources, l.KeepsPlace)
      {store : Store}
      {ref : EnvRef} {e : EnvRecord}
      (he : (resolve r sources store known ref).value.result = .ok (some e)) :
      Reached fs ([e] :: log) (resolve r sources store known ref).value.known

/-- A resolution that gives no record leaves what is known as it is. -/
theorem Reached.resolve (h : Reached fs log known) {r : Resolver} (hfs : r.machine.fs = fs)
    {sources : List Locator} (hsources : ∀ l ∈ sources, l.KeepsPlace) (store : Store)
    (ref : EnvRef) :
    Reached fs ((resolve r sources store known ref).value.result.toOption.join.elim
      log ([·] :: log))
      (resolve r sources store known ref).value.known := by
  rcases resolve_outcome r sources store known ref with ⟨e, he⟩ | ⟨hknown, hnone | ⟨f, hf, -⟩⟩
  · have hreached := h.resolved hfs hsources he
    rw [he]
    exact hreached
  · rw [hnone, hknown]
    exact h
  · rw [hf, hknown]
    exact h

/-- What is known recalls the answers of a log: under each key stands the last record that was
answered. -/
structure Recalls (fs : FileSystem) (log : List (List EnvRecord)) (known : Known) : Prop where
  keyed : known.Keyed
  latest : ∀ key, known.get? key = log.flatten.find? (·.path.key == key)
  apart : ∀ es ∈ log, es.Pairwise fs.Apart

namespace Recalls

/-- **The step** of a listing. -/
theorem remember (h : Recalls fs log known) (hc : Coherent fs.realPath)
    (hes : Completion fs (collect fs q found) es) :
    Recalls fs (if q = .all then [es] else es :: log) (known.remember q es) := by
  have hkeys : (es.map (·.path.key)).Nodup := hes.nodup_keys hc
  refine ⟨h.keyed.remember q es, fun key => ?_, ?_⟩
  · rw [Known.remember, Known.get?_insertAll hkeys]
    split
    · simp [Known.empty, Known.get?]
    · rw [List.flatten_cons, List.find?_append, h.latest]
  · have hapart := hes.apart hc
    split
    · simpa using hapart
    · exact List.forall_mem_cons.2 ⟨hapart, h.apart⟩

/-- **The step** of a resolution. -/
theorem resolve (h : Recalls fs log known) {r : Resolver} {sources : List Locator}
    (hsources : ∀ l ∈ sources, l.KeepsPlace) {store : Store} {ref : EnvRef} {e : EnvRecord}
    (he : (resolve r sources store known ref).value.result = .ok (some e)) :
    Recalls fs ([e] :: log) (resolve r sources store known ref).value.known := by
  have hapart : ∀ es ∈ [e] :: log, es.Pairwise fs.Apart :=
    List.forall_mem_cons.2 ⟨List.pairwise_singleton _ _, h.apart⟩
  have hfind : ∀ key, ([e] :: log).flatten.find? (·.path.key == key) =
      if key = e.path.key then some e else known.get? key := by
    intro key
    rw [List.flatten_cons, List.singleton_append, List.find?_cons, h.latest]
    by_cases hkey : key = e.path.key
    · simp [hkey]
    · have hne : (e.path.key == key) = false := by simpa using Ne.symm hkey
      simp [hne, hkey]
  rcases known_of_resolve hsources he with ⟨hsame, hget⟩ | hinsert
  · -- the record was the last one under its key already
    rw [hsame]
    have hkey := h.keyed.key_of_get? hget
    refine ⟨h.keyed, fun key => ?_, hapart⟩
    rw [hfind]
    split
    · rw [‹key = _›, hkey, hget]
    · rfl
  · rw [hinsert]
    refine ⟨h.keyed.insert e, fun key => ?_, hapart⟩
    rw [hfind]
    split
    · rw [‹key = _›, Known.get?_insert_self]
    · exact Known.get?_insert_of_ne known ‹_› e

end Recalls

/-- **The run**: what is known recalls the answers since the last unrestricted listing. -/
theorem Reached.recalls (h : Reached fs log known) (hc : Coherent fs.realPath) :
    Recalls fs log known := by
  induction h with
  | start => exact ⟨Known.keyed_empty, fun _ => rfl, by simp⟩
  | listed _ hes ih => exact ih.remember hc hes
  | resolved _ _ hsources he ih => exact ih.resolve hsources he

namespace Recalls

theorem mem_records_iff (h : Recalls fs log known) {e : EnvRecord} :
    e ∈ known.records ↔ log.flatten.find? (·.path.key == e.path.key) = some e := by
  rw [h.keyed.mem_records_iff, h.latest]

theorem mem_log_of_mem_records (h : Recalls fs log known) {e : EnvRecord} (he : e ∈ known.records) :
    e ∈ log.flatten :=
  List.mem_of_find?_eq_some (h.mem_records_iff.1 he)

/-- Every key that was answered is known. -/
theorem exists_record (h : Recalls fs log known) {e : EnvRecord} (he : e ∈ log.flatten) :
    ∃ d ∈ known.records, d.path.key = e.path.key := by
  have hsome : (log.flatten.find? (·.path.key == e.path.key)).isSome :=
    List.find?_isSome.2 ⟨e, he, beq_self_eq_true _⟩
  obtain ⟨d, hd⟩ := Option.isSome_iff_exists.1 hsome
  have hkey : d.path.key = e.path.key := by simpa using List.find?_some hd
  exact ⟨d, h.mem_records_iff.2 (hkey ▸ hd), hkey⟩

/-- **When each file is known once**: if and only if it was answered under one key only. -/
theorem apart_iff (h : Recalls fs log known) (hc : Coherent fs.realPath) :
    known.records.Pairwise fs.Apart ↔
      ∀ d ∈ log.flatten, ∀ e ∈ log.flatten, fs.SameFile d.path e.path →
        d.path.key = e.path.key := by
  constructor
  · intro hapart d hd e he hsame
    -- what is known under the two keys is about the same file, though other answers may have come
    -- later
    obtain ⟨d', hd', hdkey⟩ := h.exists_record hd
    obtain ⟨e', he', hekey⟩ := h.exists_record he
    by_contra hne
    have hdiffer : d' ≠ e' := fun heq => hne (by rw [← hdkey, heq, hekey])
    exact hapart.forall hd' he' hdiffer (hsame.congr hc hdkey hekey)
  · intro hone
    have hkeys := h.keyed.nodup_keys
    rw [List.Nodup, List.pairwise_map] at hkeys
    refine hkeys.imp_of_mem fun {d e} hd he hne hsame => hne ?_
    exact hone d (h.mem_log_of_mem_records hd) e (h.mem_log_of_mem_records he) hsame

/-- After an unrestricted listing each file is known once. -/
theorem apart_of_length (h : Recalls fs log known) (hc : Coherent fs.realPath)
    (hlength : log.length = 1) :
    known.records.Pairwise fs.Apart := by
  obtain ⟨es, rfl⟩ := List.length_eq_one_iff.1 hlength
  refine (h.apart_iff hc).2 fun d hd e he hsame => ?_
  rw [List.flatten_singleton] at hd he
  by_contra hne
  exact (h.apart es (List.mem_singleton_self es)).forall hd he (fun heq => hne (by rw [heq])) hsame

end Recalls

end Composite

/-! ### Sessions -/

namespace Session

theorem listSources_run_known (ps : List Nat) (s : Session) :
    ((listSources ps).run s).2.known = s.known := by
  obtain ⟨_, _, _, hrun⟩ := listSources_run_frame ps s
  rw [hrun]

/-- A listing that comes to an end is remembered, and one that breaks off is not. -/
theorem environments_run_known (s : Session) (q : Query) :
    ((environments q).run s).2.machine = s.machine ∧
      ((environments q).run s).2.known = ((environments q).run s).1.elim s.known
        (s.known.remember q) := by
  have hmachine : ((search q).run s).2.machine = s.machine := by
    rw [search_run_state]
    exact (listSources_run (s.searched q) s).1.machine
  have hknown : ((search q).run s).2.known = s.known := by
    rw [search_run_state]
    exact listSources_run_known (s.searched q) s
  rw [environments, StateT.run_bind]
  -- the search is forgotten here: unfolding it would run all sources
  generalize (search q).run s = out at hmachine hknown
  obtain ⟨_ | found, t⟩ := out
  · exact ⟨hmachine, hknown⟩
  · refine ⟨hmachine, ?_⟩
    rw [← hknown]
    rfl

/-- The sources of a session stay the same when it lists environments. -/
theorem environments_run_locators (s : Session) (q : Query) :
    ((environments q).run s).2.locators = s.locators := by
  have hlocators : ((search q).run s).2.locators = s.locators := by
    rw [search_run_state]
    obtain ⟨hsame, -⟩ := listSources_run (s.searched q) s
    obtain ⟨_, _, _, hrun⟩ := listSources_run_frame (s.searched q) s
    rw [locators, locators, hsame.locators, hsame.workspace, hrun]
  rw [environments, StateT.run_bind]
  generalize (search q).run s = out at hlocators
  obtain ⟨_ | found, t⟩ := out
  · exact hlocators
  · exact hlocators

/-- What a session is asked. -/
inductive Request where
  | list (q : Query)
  | resolve (ref : EnvRef)

/-- Asks a session; gives the answers since the last unrestricted listing, the last one first. -/
def ask (log : List (List EnvRecord)) : Request → SessionM (List (List EnvRecord))
  | .list q => return (← environments q).elim log fun es => if q = .all then [es] else es :: log
  | .resolve ref => return (← Session.resolve ref).toOption.join.elim log ([·] :: log)

/-- Asks a session again and again. -/
def askFrom (log : List (List EnvRecord)) : List Request → SessionM (List (List EnvRecord))
  | [] => return log
  | request :: rest => do askFrom (← ask log request) rest

/-- **The step**: what a session knows stays within reach. -/
theorem reached_ask {s : Session} (hsources : ∀ l ∈ s.locators, l.KeepsPlace)
    {log : List (List EnvRecord)} (h : Composite.Reached s.machine.fs log s.known)
    (request : Request) :
    ((ask log request).run s).2.machine = s.machine ∧
    ((ask log request).run s).2.locators = s.locators ∧
      Composite.Reached s.machine.fs ((ask log request).run s).1
        ((ask log request).run s).2.known := by
  cases request with
  | list q =>
      have hrun : (ask log (.list q)).run s =
          (((environments q).run s).1.elim log fun es => if q = .all then [es] else es :: log,
            ((environments q).run s).2) := rfl
      obtain ⟨hmachine, hknown⟩ := environments_run_known s q
      rw [hrun]
      refine ⟨hmachine, environments_run_locators s q, ?_⟩
      rw [hknown]
      cases hes : ((environments q).run s).1 with
      | none => exact h
      | some es =>
          have hpair : (environments q).run s = (some es, ((environments q).run s).2) :=
            Prod.ext hes rfl
          obtain ⟨-, -, found, hcompletion⟩ := environments_run hpair
          exact h.listed hcompletion
  | resolve ref =>
      have hrun : (ask log (.resolve ref)).run s =
          ((Composite.resolve s.resolver s.locators s.store s.known
            ref).value.result.toOption.join.elim log
            ([·] :: log), { s with
              calls :=
                s.calls ++ (Composite.resolve s.resolver s.locators s.store s.known ref).calls
              store := (Composite.resolve s.resolver s.locators s.store s.known ref).value.store
              known :=
                (Composite.resolve s.resolver s.locators s.store s.known ref).value.known }) := rfl
      rw [hrun]
      exact ⟨rfl, rfl, h.resolve rfl hsources s.store ref⟩

/-- **The run**: whatever a session is asked, what it knows is within reach. -/
theorem reached_askFrom {s : Session} (hsources : ∀ l ∈ s.locators, l.KeepsPlace)
    {log : List (List EnvRecord)} (h : Composite.Reached s.machine.fs log s.known)
    (requests : List Request) :
    Composite.Reached s.machine.fs ((askFrom log requests).run s).1
      ((askFrom log requests).run s).2.known := by
  induction requests generalizing s log with
  | nil => exact h
  | cons request rest ih =>
      obtain ⟨hmachine, hlocators, hreached⟩ := reached_ask hsources h request
      rw [← hmachine] at hreached ⊢
      exact ih (hlocators ▸ hsources) hreached

/-- A listing of what is known shows the known records. -/
theorem interpreters_known (s : Session) (resource : Option Path)
    (sources : Option (List EnvSource)) :
    ((interpreters resource true sources).run s).1 =
      (s.known.records.filter (hasSource sources)).map fun e =>
        Listing.entryOf e (s.known.contains e.path) := rfl

theorem interpreters_known_sublist (s : Session) (resource : Option Path)
    (sources : Option (List EnvSource)) :
    (((interpreters resource true sources).run s).1.map (·.path)).Sublist
      (s.known.records.map (·.path)) := by
  rw [interpreters_known, List.map_map]
  exact List.filter_sublist.map _

end Session

/-- **Each key is known once**, and when each file is known once. On a coherent file system,
whatever is listed and resolved, in any order: under each key stands the last record that was
answered since the last unrestricted listing, and no answer has two records of one file. So each
file is known once if and only if it was answered under one key only, in particular after an
unrestricted listing. The sessions that start with nothing known are such runs, and their listings
of what is known show each key once, and each file once after an unrestricted listing. All this
rests on sources that keep executables in their place, which those that search the machine do. -/
theorem Composite.known_records_have_own_keys (fs : FileSystem) (hc : Coherent fs.realPath) :
    (∀ log known, Reached fs log known →
      (known.records.map (·.path.key)).Nodup ∧
        (∀ e, e ∈ known.records ↔ log.flatten.find? (·.path.key == e.path.key) = some e) ∧
        (∀ es ∈ log, es.Pairwise fs.Apart) ∧
        (known.records.Pairwise fs.Apart ↔
          ∀ d ∈ log.flatten, ∀ e ∈ log.flatten, fs.SameFile d.path e.path →
            d.path.key = e.path.key) ∧
        (log.length = 1 → known.records.Pairwise fs.Apart)) ∧
    (∀ (s : Session), s.machine.fs = fs → s.known = .empty → (∀ l ∈ s.locators, l.KeepsPlace) →
      ∀ (requests : List Session.Request),
      let out := (Session.askFrom [] requests).run s
      Reached fs out.1 out.2.known ∧
        ∀ (resource : Option Path) (sources : Option (List EnvSource)),
          let shown := ((Session.interpreters resource true sources).run out.2).1.map (·.path)
          (shown.map Path.key).Nodup ∧ (out.1.length = 1 →
            shown.Pairwise fun p q => ¬fs.SameFile p q)) ∧
    ∀ l : Locator, (∀ source, l ≠ .fixed source) → l.KeepsPlace := by
  refine ⟨?_, ?_, fun l => Locator.keepsPlace⟩
  · intro log known h
    have hrecalls := h.recalls hc
    refine ⟨hrecalls.keyed.nodup_keys, fun _ => hrecalls.mem_records_iff, hrecalls.apart,
      hrecalls.apart_iff hc, ?_⟩
    exact hrecalls.apart_of_length hc
  · rintro s rfl hempty hsources requests out
    have hreached : Reached s.machine.fs out.1 out.2.known :=
      Session.reached_askFrom hsources (hempty ▸ Reached.start) requests
    have hrecalls := hreached.recalls hc
    refine ⟨hreached, fun resource sources => ?_⟩
    have hsub := out.2.interpreters_known_sublist resource sources
    constructor
    · have hkeys := hrecalls.keyed.nodup_keys
      refine List.Nodup.sublist (hsub.map _) ?_
      rw [List.map_map]
      exact hkeys
    · intro hlength
      refine List.Pairwise.sublist hsub ?_
      rw [List.pairwise_map]
      exact hrecalls.apart_of_length hc hlength

/-- The link alone is listed first; an unrestricted listing then replaces it by one record of the
link and the interpreter. -/
theorem Composite.known_records_have_own_keys_linked :
    let info : InterpreterInfo :=
      ⟨⟨"/usr/bin/python3.11"⟩, ⟨"/usr"⟩, ⟨some 3, some 11, some 4, none, none⟩, .x64⟩
    let link := (EnvRecord.new ⟨"/usr/bin/python3"⟩ .system).complete info
    let direct := (EnvRecord.new ⟨"/usr/bin/./python3.11"⟩ .conda).complete info
    let requests := [Session.Request.list ⟨some [.system], none⟩, .list .all]
    let s := linkedSession [link, direct]
    let out := (Session.askFrom [] requests).run s
    (Coherent EnvSet.linkedPython.realPath ∧ s.known.entries = [] ∧
      (∀ l ∈ s.locators, l.KeepsPlace) ∧
        out.1 = [[link.merge direct]]) ∧
      (Reached EnvSet.linkedPython out.1 out.2.known ∧
        link.merge direct ∈ out.2.known.records ∧
          out.2.known.records.Pairwise EnvSet.linkedPython.Apart) ∧
      (((Session.interpreters none true none).run out.2).1.map (·.path)).Pairwise
        fun p q => ¬EnvSet.linkedPython.SameFile p q := by
  intro info link direct requests s
  have hlog : ((Session.askFrom [] requests).run s).1 = [[link.merge direct]] := by decide +kernel
  have hsources : ∀ l ∈ s.locators, l.KeepsPlace := by
    intro l hl
    obtain rfl : l = .fixed ⟨[link, direct], none, fun _ => none, false⟩ := List.mem_singleton.1 hl
    exact fun _ _ _ h => nomatch h
  obtain ⟨hknown, hsession, -⟩ :=
    known_records_have_own_keys EnvSet.linkedPython EnvSet.coherent_linkedPython
  have hrun := hsession s rfl rfl hsources requests
  -- from here on only the log of the run counts
  generalize (Session.askFrom [] requests).run s = out at hlog hrun ⊢
  have hlength : out.1.length = 1 := by rw [hlog]; rfl
  obtain ⟨hreached, hshown⟩ := hrun
  obtain ⟨-, hmem, -, -, hapart⟩ := hknown out.1 out.2.known hreached
  refine ⟨⟨EnvSet.coherent_linkedPython, rfl, hsources, hlog⟩,
    ⟨hreached, (hmem _).2 ?_, hapart hlength⟩, (hshown none none).2 hlength⟩
  rw [hlog, List.flatten_singleton, List.find?_singleton, beq_self_eq_true]
  rfl

/-- The link and the interpreter, listed one after the other as environments of two kinds, are both
known, though they are one file, and both are shown. -/
theorem Session.link_and_target_are_both_known :
    let info : InterpreterInfo :=
      ⟨⟨"/usr/bin/python3.11"⟩, ⟨"/usr"⟩, ⟨some 3, some 11, some 4, none, none⟩, .x64⟩
    let link := (EnvRecord.new ⟨"/usr/bin/python3"⟩ .system).complete info
    let direct := (EnvRecord.new ⟨"/usr/bin/python3.11"⟩ .conda).complete info
    let requests := [Request.list ⟨some [.system], none⟩, .list ⟨some [.conda], none⟩]
    let s := ((askFrom [] requests).run (linkedSession [link, direct])).2
    let shown := ((interpreters none true none).run s).1.map (·.path)
    Coherent EnvSet.linkedPython.realPath ∧ EnvSet.linkedPython.SameFile link.path direct.path ∧
      link ≠ direct ∧
      (link ∈ s.known.records ∧ direct ∈ s.known.records) ∧ link.path ∈ shown ∧
        direct.path ∈ shown := by
  intro info link direct requests s shown
  have hentries : s.known.entries.map Prod.snd = [link, direct] := by decide +kernel
  have hmem : ∀ e ∈ [link, direct], e ∈ s.known.records := fun e he =>
    s.known.records_perm.mem_iff.2 (hentries ▸ he)
  have hshown : ∀ e ∈ [link, direct], e.path ∈ shown := fun e he => by
    rw [show shown = _ from congrArg _ (s.interpreters_known none none), List.map_map]
    exact List.mem_map_of_mem (List.mem_filter.2 ⟨hmem e he, rfl⟩)
  refine ⟨EnvSet.coherent_linkedPython,
    .inr ⟨⟨"/usr/bin/python3.11"⟩, by decide +kernel, by decide +kernel⟩, by decide, ?_⟩
  exact ⟨⟨hmem link (by simp), hmem direct (by simp)⟩, hshown link (by simp),
    hshown direct (by simp)⟩

end EnvDiscovery
