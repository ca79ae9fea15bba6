import EnvDiscovery.Discovery.EnvSet
import EnvDiscovery.FileSystem.Basic
import EnvDiscovery.Proofs.Merge
import Mathlib.Data.List.Induction
import Mathlib.Data.List.Nodup

/-!
**What a set of environments holds.**

The first part makes no assumption on the file system: a step of `EnvSet.add` either merges a record
into one that stands at a known position, or puts it at the end. The second part is about a coherent
file system, where the two keys of a record never lead to different environments. There the set is
exactly the list of merged groups: one record for each file, in the order in which the files were
first seen.

Main definitions:
* `Coherent` — paths of one spelling lead to one file, and a real path leads to itself;
* `EnvSet.Identity`, `EnvSet.identity` — the file of a record, or its spelling when it leads
  nowhere;
* `EnvSet.identities`, `EnvSet.group` — the files of a list of records, and the records of a file;
* `EnvSet.Represents` — the invariant of adding: what the records and the index say about the
  reports so far.

Main results:
* `EnvSet.position?_lt_length` — positions in the index are positions of records;
* `EnvSet.ofList_forall` — what every report has and merging keeps, every record of the set has;
* `EnvSet.ofList_covers` — every report is covered by a record of the set;
* `EnvSet.represents_ofList` — the invariant holds after any list of reports;
* `EnvSet.records_are_merged_groups` — **the set is the list of merged groups**, and its groups,
  sources and specificities do not depend on the order of the reports.
-/

namespace EnvDiscovery

namespace EnvSet

/-! ### One step -/

variable {s : EnvSet} {e : EnvRecord} {realPath : Path → Option Path} {es : List EnvRecord}

theorem mem_keysOf {k : String} {rp : Option Path} :
    k ∈ keysOf e rp ↔ k = e.path.key ∨ ∃ r, rp = some r ∧ k = r.key := by
  cases rp <;> simp [keysOf]

/-- The keys of a record come before the older ones. -/
theorem lookup_keys_append (keys : List String) (i : Nat) (index : List (String × Nat))
    (k : String) :
    (keys.map (·, i) ++ index).lookup k = if k ∈ keys then some i else index.lookup k := by
  induction keys with
  | nil => simp
  | cons key keys ih =>
      rw [List.map_cons, List.cons_append, List.lookup_cons, ih]
      by_cases h : k = key
      · simp [h]
      · have hne : (k == key) = false := by simpa using h
        simp [hne, h]

theorem exists_key_of_position? {keys : List String} {i : Nat} (h : s.position? keys = some i) :
    ∃ k ∈ keys, s.index.lookup k = some i :=
  List.exists_of_findSome?_eq_some h

theorem lookup_of_position?_none {keys : List String} (h : s.position? keys = none) :
    ∀ k ∈ keys, s.index.lookup k = none :=
  List.findSome?_eq_none_iff.1 h

theorem add_of_position?_some {rp : Option Path} {i : Nat}
    (h : s.position? (keysOf e rp) = some i) :
    s.add e rp = ⟨s.records.modify i (·.merge e), (keysOf e rp).map (·, i) ++ s.index⟩ := by
  simp [add, h]

theorem add_of_position?_none {rp : Option Path} (h : s.position? (keysOf e rp) = none) :
    s.add e rp = ⟨s.records ++ [e], (keysOf e rp).map (·, s.records.length) ++ s.index⟩ := by
  simp [add, h]

@[simp] theorem ofList_nil : ofList realPath [] = empty := rfl

theorem ofList_concat (es : List EnvRecord) (e : EnvRecord) :
    ofList realPath (es ++ [e]) = (ofList realPath es).add e (realPath e.path) := by
  simp [ofList]

/-! ### Any file system -/

/-- Every position in the index is the position of a record. -/
def Bounded (s : EnvSet) : Prop :=
  ∀ k i, s.index.lookup k = some i → i < s.records.length

theorem Bounded.position?_lt (hs : s.Bounded) {keys : List String} {i : Nat}
    (h : s.position? keys = some i) : i < s.records.length := by
  obtain ⟨k, -, hk⟩ := exists_key_of_position? h
  exact hs k i hk

theorem Bounded.add (hs : s.Bounded) (e : EnvRecord) (rp : Option Path) : (s.add e rp).Bounded := by
  intro k j hj
  cases hpos : s.position? (keysOf e rp) with
  | some i =>
      rw [add_of_position?_some hpos, lookup_keys_append] at hj
      rw [add_of_position?_some hpos, List.length_modify]
      split at hj
      · obtain rfl : i = j := by simpa using hj
        exact hs.position?_lt hpos
      · exact hs k j hj
  | none =>
      rw [add_of_position?_none hpos, lookup_keys_append] at hj
      rw [add_of_position?_none hpos, List.length_append, List.length_singleton]
      split at hj
      · obtain rfl : s.records.length = j := by simpa using hj
        omega
      · have := hs k j hj
        omega

theorem bounded_ofList (realPath : Path → Option Path) (es : List EnvRecord) :
    (ofList realPath es).Bounded := by
  induction es using List.reverseRecOn with
  | nil => simp [Bounded, empty]
  | append_singleton es e ih =>
      rw [ofList_concat]
      exact ih.add e _

/-- The position under which a further record is looked up is that of a record. -/
theorem position?_lt_length (realPath : Path → Option Path) (es : List EnvRecord)
    {keys : List String} {i : Nat} (h : (ofList realPath es).position? keys = some i) :
    i < (ofList realPath es).records.length :=
  (bounded_ofList realPath es).position?_lt h

/-- After a step a record is an old one, an old one merged with the new one, or the new one. -/
theorem mem_add {rp : Option Path} {r : EnvRecord} (h : r ∈ (s.add e rp).records) :
    r ∈ s.records ∨ (∃ old ∈ s.records, r = old.merge e) ∨ r = e := by
  cases hpos : s.position? (keysOf e rp) with
  | some i =>
      rw [add_of_position?_some hpos] at h
      obtain ⟨j, hj⟩ := List.mem_iff_getElem?.1 h
      rw [List.getElem?_modify, Option.map_eq_map, Option.map_eq_some_iff] at hj
      obtain ⟨old, hold, rfl⟩ := hj
      have hmem : old ∈ s.records := List.mem_of_getElem? hold
      by_cases hij : i = j
      · exact Or.inr (Or.inl ⟨old, hmem, by simp [hij]⟩)
      · exact Or.inl (by simpa [hij] using hmem)
  | none =>
      rw [add_of_position?_none hpos] at h
      rcases List.mem_append.1 h with h | h
      · exact Or.inl h
      · exact Or.inr (Or.inr (by simpa using h))

/-- What every report has and merging keeps, every record of the set has. -/
theorem ofList_forall {P : EnvRecord → Prop} (hmerge : ∀ a b, P a → P b → P (a.merge b))
    (realPath : Path → Option Path) (hall : ∀ e ∈ es, P e) :
    ∀ r ∈ (ofList realPath es).records, P r := by
  induction es using List.reverseRecOn with
  | nil => simp [empty]
  | append_singleton es e ih =>
      intro r hr
      have he : P e := hall e (by simp)
      have hold : ∀ r ∈ (ofList realPath es).records, P r := ih fun d hd => hall d (by simp [hd])
      rw [ofList_concat] at hr
      rcases mem_add hr with hr | ⟨old, hmem, rfl⟩ | rfl
      · exact hold r hr
      · exact hmerge old e (hold old hmem) he
      · exact he

/-- A step keeps every record up to merging. -/
theorem exists_covers_add {r d : EnvRecord} (hr : r ∈ s.records) (hd : r.Covers d) (e : EnvRecord)
    (rp : Option Path) : ∃ r' ∈ (s.add e rp).records, r'.Covers d := by
  cases hpos : s.position? (keysOf e rp) with
  | some i =>
      rw [add_of_position?_some hpos]
      obtain ⟨j, hj⟩ := List.mem_iff_getElem?.1 hr
      have hmod : (s.records.modify i (·.merge e))[j]? = some (if i = j then r.merge e else r) := by
        rw [List.getElem?_modify, hj]
        rfl
      refine ⟨_, List.mem_of_getElem? hmod, ?_⟩
      split
      · exact hd.merge_left e
      · exact hd
  | none =>
      rw [add_of_position?_none hpos]
      exact ⟨r, by simp [hr], hd⟩

/-- A step covers the record it adds. -/
theorem Bounded.exists_covers_self (hs : s.Bounded) (e : EnvRecord) (rp : Option Path) :
    ∃ r ∈ (s.add e rp).records, r.Covers e := by
  cases hpos : s.position? (keysOf e rp) with
  | some i =>
      rw [add_of_position?_some hpos]
      have hi : i < s.records.length := hs.position?_lt hpos
      have hmod : (s.records.modify i (·.merge e))[i]? = some (s.records[i].merge e) := by
        rw [List.getElem?_modify_eq, List.getElem?_eq_getElem hi]
        rfl
      exact ⟨_, List.mem_of_getElem? hmod, EnvRecord.covers_merge_right _ e⟩
  | none =>
      rw [add_of_position?_none hpos]
      exact ⟨e, by simp, EnvRecord.Covers.refl e⟩

/-- Every report is covered by a record of the set. -/
theorem ofList_covers (realPath : Path → Option Path) (es : List EnvRecord) :
    ∀ e ∈ es, ∃ r ∈ (ofList realPath es).records, r.Covers e := by
  induction es using List.reverseRecOn with
  | nil => simp
  | append_singleton es e ih =>
      intro d hd
      rw [ofList_concat]
      rcases List.mem_append.1 hd with hd | hd
      · obtain ⟨r, hr, hrd⟩ := ih d hd
        exact exists_covers_add hr hrd e _
      · obtain rfl : d = e := by simpa using hd
        exact (bounded_ofList realPath es).exists_covers_self d _

/-! ### Coherent file systems -/

end EnvSet

/-- Paths of one spelling lead to the same file or all lead nowhere, and a real path leads to
itself. -/
structure Coherent (realPath : Path → Option Path) : Prop where
  of_key : ∀ p q : Path, p.key = q.key → realPath p = realPath q
  fixed : ∀ p r : Path, realPath p = some r → realPath r = some r

namespace EnvSet

/-- What tells environments apart: the file behind the links, or the plain spelling of a path that
leads nowhere. -/
inductive Identity where
  | file (realPath : Path)
  | spelling (key : String)
deriving DecidableEq

/-- The identity of a record. -/
def identity (realPath : Path → Option Path) (e : EnvRecord) : Identity :=
  match realPath e.path with
  | some r => .file r
  | none => .spelling e.path.key

/-- The identities of some records, in the order of their first record. -/
def identities (realPath : Path → Option Path) (es : List EnvRecord) : List Identity :=
  (es.map (identity realPath)).eraseDups

/-- The records of one identity, in order. -/
def group (realPath : Path → Option Path) (es : List EnvRecord) (i : Identity) : List EnvRecord :=
  es.filter (identity realPath · = i)

section Identities

variable {s : EnvSet} {e : EnvRecord} {realPath : Path → Option Path} {es : List EnvRecord}
  {i : Identity}

theorem identity_of_some {r : Path} (h : realPath e.path = some r) :
    identity realPath e = .file r := by
  simp [identity, h]

theorem identity_of_none (h : realPath e.path = none) :
    identity realPath e = .spelling e.path.key := by
  simp [identity, h]

/-- Records of one executable have one identity. -/
theorem identity_congr {d : EnvRecord} (h : d.path = e.path) :
    identity realPath d = identity realPath e := by
  simp [identity, h]

theorem mem_identities : i ∈ identities realPath es ↔ ∃ e ∈ es, identity realPath e = i := by
  simp [identities]

theorem identities_concat_of_mem (h : identity realPath e ∈ identities realPath es) :
    identities realPath (es ++ [e]) = identities realPath es := by
  have hmem : ∃ d ∈ es, identity realPath d = identity realPath e := mem_identities.1 h
  rw [identities, List.map_append, List.eraseDups_append]
  simp [List.removeAll, hmem, identities]

theorem identities_concat_of_notMem (h : identity realPath e ∉ identities realPath es) :
    identities realPath (es ++ [e]) = identities realPath es ++ [identity realPath e] := by
  have hmem : ¬∃ d ∈ es, identity realPath d = identity realPath e :=
    fun hd => h (mem_identities.2 hd)
  rw [identities, List.map_append, List.eraseDups_append]
  simp [List.removeAll, hmem, identities, List.eraseDups_cons]

theorem identities_prefix_concat (realPath : Path → Option Path) (es : List EnvRecord)
    (e : EnvRecord) :
    identities realPath es <+: identities realPath (es ++ [e]) := by
  by_cases h : identity realPath e ∈ identities realPath es
  · exact ⟨[], by rw [List.append_nil, identities_concat_of_mem h]⟩
  · rw [identities_concat_of_notMem h]
    exact List.prefix_append _ _

theorem nodup_identities (realPath : Path → Option Path) (es : List EnvRecord) :
    (identities realPath es).Nodup := by
  induction es using List.reverseRecOn with
  | nil => simp [identities]
  | append_singleton es e ih =>
      by_cases h : identity realPath e ∈ identities realPath es
      · rwa [identities_concat_of_mem h]
      · rw [identities_concat_of_notMem h]
        exact ih.append (List.nodup_singleton _) (by simpa using h)

theorem group_concat_self :
    group realPath (es ++ [e]) (identity realPath e) = group realPath es (identity realPath e) ++
      [e] := by
  simp [group]

theorem group_concat_of_ne (h : identity realPath e ≠ i) :
    group realPath (es ++ [e]) i = group realPath es i := by
  simp [group, h]

theorem group_eq_nil (h : i ∉ identities realPath es) : group realPath es i = [] := by
  rw [group, List.filter_eq_nil_iff]
  intro e he
  simpa using fun heq => h (mem_identities.2 ⟨e, he, heq⟩)

/-- The merged record of a group has the identity of the group. -/
theorem identity_of_mergeAll {r : EnvRecord}
    (h : EnvRecord.mergeAll (group realPath es i) = some r) :
    identity realPath r = i := by
  refine EnvRecord.mergeAll_induction (P := fun d => identity realPath d = i) ?_ ?_ h
  · intro a b ha hb
    rcases EnvRecord.merge_origin a b with ⟨-, hpath⟩ | ⟨-, hpath⟩
    · rw [identity_congr hpath, ha]
    · rw [identity_congr hpath, hb]
  · intro d hd
    simpa using (List.mem_filter.1 hd).2

/-- On a coherent file system records that share a key have one identity: neither of the two keys of
a record leads to another file. -/
theorem identity_eq_of_common_key (hc : Coherent realPath) {d : EnvRecord} {k : String}
    (hd : k ∈ keysOf d (realPath d.path)) (he : k ∈ keysOf e (realPath e.path)) :
    identity realPath d = identity realPath e := by
  -- a key of a record leads to the same file as the record
  have lead : ∀ {x : EnvRecord} {p : Path}, k ∈ keysOf x (realPath x.path) → p.key = k →
      realPath p = realPath x.path := by
    intro x p hx hp
    rcases mem_keysOf.1 hx with rfl | ⟨r, hr, rfl⟩
    · exact hc.of_key p x.path hp
    · rw [hc.of_key p r hp, hc.fixed x.path r hr, hr]
  have same : realPath d.path = realPath e.path := by
    rcases mem_keysOf.1 hd with rfl | ⟨r, hr, rfl⟩
    · exact lead he rfl
    · rw [hr, ← hc.fixed d.path r hr]
      exact lead he rfl
  cases hreal : realPath e.path with
  | some r => rw [identity_of_some hreal, identity_of_some (same.trans hreal)]
  | none =>
      rw [hreal] at he same
      rw [same] at hd
      have hkey : d.path.key = e.path.key := by
        simp only [keysOf, Option.toList_none, List.map_nil, List.mem_singleton] at hd he
        rw [← hd, ← he]
      rw [identity_of_none hreal, identity_of_none same, hkey]

/-- Records of one identity share a key, on any file system. -/
theorem common_key_of_identity_eq {d : EnvRecord} (h : identity realPath d = identity realPath e) :
    ∃ k, k ∈ keysOf d (realPath d.path) ∧ k ∈ keysOf e (realPath e.path) := by
  cases hd : realPath d.path with
  | some r =>
      cases he : realPath e.path with
      | some r' =>
          obtain rfl : r = r' := by simpa [identity_of_some hd, identity_of_some he] using h
          exact ⟨r.key, by simp [keysOf], by simp [keysOf]⟩
      | none => simp [identity_of_some hd, identity_of_none he] at h
  | none =>
      cases he : realPath e.path with
      | some r' => simp [identity_of_none hd, identity_of_some he] at h
      | none =>
          have hkey : d.path.key = e.path.key := by
            simpa [identity_of_none hd, identity_of_none he] using h
          exact ⟨d.path.key, by simp [keysOf], by simp [keysOf, hkey]⟩

/-! ### The invariant of adding -/

/-- The set `s` represents the reports `es`: its records are the merged groups, every key of a
report stands for the place of its group, and no other key is known. -/
structure Represents (realPath : Path → Option Path) (es : List EnvRecord) (s : EnvSet) : Prop where
  records : s.records.map some =
    (identities realPath es).map fun i => EnvRecord.mergeAll (group realPath es i)
  known : ∀ e ∈ es, ∀ k ∈ keysOf e (realPath e.path),
    s.index.lookup k = some ((identities realPath es).idxOf (identity realPath e))
  only : ∀ k i, s.index.lookup k = some i → ∃ e ∈ es, k ∈ keysOf e (realPath e.path)

namespace Represents

theorem length_records (h : Represents realPath es s) :
    s.records.length = (identities realPath es).length := by
  simpa using congrArg List.length h.records

/-- The record at a place is the merged group of that place. -/
theorem getElem?_records (h : Represents realPath es s) (j : Nat) :
    s.records[j]?.map some =
      (identities realPath es)[j]?.map fun i => EnvRecord.mergeAll (group realPath es i) := by
  rw [← List.getElem?_map, ← List.getElem?_map, h.records]

/-- A record of a known identity is found at the place of its group. -/
theorem position?_of_mem (hc : Coherent realPath) (h : Represents realPath es s)
    (hmem : identity realPath e ∈ identities realPath es) :
    s.position? (keysOf e (realPath e.path)) =
      some ((identities realPath es).idxOf (identity realPath e)) := by
  cases hpos : s.position? (keysOf e (realPath e.path)) with
  | some i =>
      obtain ⟨k, hk, hlook⟩ := exists_key_of_position? hpos
      obtain ⟨d, hd, hkd⟩ := h.only k i hlook
      rw [← identity_eq_of_common_key hc hkd hk, ← h.known d hd k hkd, hlook]
  | none =>
      obtain ⟨d, hd, hid⟩ := mem_identities.1 hmem
      obtain ⟨k, hkd, hke⟩ := common_key_of_identity_eq hid
      have hnone := lookup_of_position?_none hpos k hke
      rw [h.known d hd k hkd] at hnone
      simp at hnone

/-- A record of a new identity is not found. -/
theorem position?_of_notMem (hc : Coherent realPath) (h : Represents realPath es s)
    (hmem : identity realPath e ∉ identities realPath es) :
    s.position? (keysOf e (realPath e.path)) = none := by
  cases hpos : s.position? (keysOf e (realPath e.path)) with
  | none => rfl
  | some i =>
      obtain ⟨k, hk, hlook⟩ := exists_key_of_position? hpos
      obtain ⟨d, hd, hkd⟩ := h.only k i hlook
      exact absurd (mem_identities.2 ⟨d, hd, identity_eq_of_common_key hc hkd hk⟩) hmem

/-- Once the keys of a further record stand for the place of its group, the index is right again. -/
theorem index_step (hc : Coherent realPath) (h : Represents realPath es s)
    {records : List EnvRecord} {p : Nat}
    (hp : p = (identities realPath (es ++ [e])).idxOf (identity realPath e))
    (hrecords : records.map some =
      (identities realPath (es ++ [e])).map fun i =>
        EnvRecord.mergeAll (group realPath (es ++ [e]) i)) :
    Represents realPath (es ++ [e])
    ⟨records, (keysOf e (realPath e.path)).map (·, p) ++ s.index⟩ where
  records := hrecords
  known := by
    intro d hd k hk
    rw [lookup_keys_append]
    split
    · rename_i hke
      rw [hp, identity_eq_of_common_key hc hk hke]
    · rename_i hke
      have hmem : d ∈ es := by
        rcases List.mem_append.1 hd with hd | hd
        · exact hd
        · obtain rfl : d = e := by simpa using hd
          exact absurd hk hke
      rw [h.known d hmem k hk,
        (identities_prefix_concat realPath es e).idxOf_eq_of_mem (mem_identities.2 ⟨d, hmem, rfl⟩)]
  only := by
    intro k i hlook
    rw [lookup_keys_append] at hlook
    split at hlook
    · exact ⟨e, by simp, ‹_›⟩
    · obtain ⟨d, hd, hkd⟩ := h.only k i hlook
      exact ⟨d, by simp [hd], hkd⟩

/-- A record of a known identity is merged into its group, and no other group changes. -/
theorem records_step_of_mem (h : Represents realPath es s)
    (hmem : identity realPath e ∈ identities realPath es) :
    (s.records.modify ((identities realPath es).idxOf (identity realPath e)) (·.merge e)).map some =
      (identities realPath (es ++ [e])).map fun i =>
        EnvRecord.mergeAll (group realPath (es ++ [e]) i) := by
  rw [identities_concat_of_mem hmem]
  refine List.ext_getElem? fun j => ?_
  have hj := h.getElem?_records j
  rw [List.getElem?_map, List.getElem?_map, List.getElem?_modify]
  cases hid : (identities realPath es)[j]? with
  | none =>
      have hrec : s.records[j]? = none := by simpa [hid] using hj
      rw [hrec]
      rfl
  | some i =>
      rw [hid, Option.map_some, Option.map_eq_some_iff] at hj
      obtain ⟨r, hr, hmerged⟩ := hj
      have hplace : (identities realPath es).idxOf i = j := by
        obtain ⟨hlt, rfl⟩ := List.getElem?_eq_some_iff.1 hid
        exact (nodup_identities realPath es).idxOf_getElem j hlt
      rw [hr, Option.map_some]
      by_cases heq : identity realPath e = i
      · subst heq
        rw [group_concat_self, EnvRecord.mergeAll_concat hmerged.symm]
        simp [hplace]
      · have hne : (identities realPath es).idxOf (identity realPath e) ≠ j := by
          intro hidx
          have hfound := List.getElem?_idxOf hmem
          rw [hidx, hid, Option.some_inj] at hfound
          exact heq hfound.symm
        rw [group_concat_of_ne heq, ← hmerged]
        simp [hne]

/-- A record of a new identity makes a group of its own, after all others. -/
theorem records_step_of_notMem (h : Represents realPath es s)
    (hmem : identity realPath e ∉ identities realPath es) :
    (s.records ++ [e]).map some =
      (identities realPath (es ++ [e])).map fun i =>
        EnvRecord.mergeAll (group realPath (es ++ [e]) i) := by
  rw [identities_concat_of_notMem hmem, List.map_append, List.map_append, h.records]
  congr 1
  · refine List.map_congr_left fun i hi => ?_
    have hne : identity realPath e ≠ i := fun heq => hmem (heq ▸ hi)
    rw [group_concat_of_ne hne]
  · rw [List.map_singleton, List.map_singleton, group_concat_self, group_eq_nil hmem]
    rfl

/-- **The step**: adding a report keeps the invariant. -/
theorem add (hc : Coherent realPath) (h : Represents realPath es s) (e : EnvRecord) :
    Represents realPath (es ++ [e]) (s.add e (realPath e.path)) := by
  by_cases hmem : identity realPath e ∈ identities realPath es
  · rw [add_of_position?_some (h.position?_of_mem hc hmem)]
    refine h.index_step hc ?_ (h.records_step_of_mem hmem)
    rw [identities_concat_of_mem hmem]
  · rw [add_of_position?_none (h.position?_of_notMem hc hmem)]
    refine h.index_step hc ?_ (h.records_step_of_notMem hmem)
    rw [identities_concat_of_notMem hmem, List.idxOf_append_of_notMem hmem, h.length_records]
    simp

end Represents

/-- **The run**: after any list of reports the set represents them. -/
theorem represents_ofList (hc : Coherent realPath) (es : List EnvRecord) :
    Represents realPath es (ofList realPath es) := by
  induction es using List.reverseRecOn with
  | nil => exact ⟨rfl, by simp, by simp [empty]⟩
  | append_singleton es e ih =>
      rw [ofList_concat]
      exact ih.add hc e

/-! ### The order of the reports -/

theorem identities_perm {es' : List EnvRecord} (hp : es'.Perm es) :
    (identities realPath es').Perm (identities realPath es) := by
  rw [List.perm_ext_iff_of_nodup (nodup_identities _ _) (nodup_identities _ _)]
  intro i
  simp only [mem_identities, hp.mem_iff]

theorem group_perm {es' : List EnvRecord} (hp : es'.Perm es) (i : Identity) :
    (group realPath es' i).Perm (group realPath es i) :=
  hp.filter _

/-- What does not depend on the order of the reports: the identity, the sources and the
specificity. -/
def summary (realPath : Path → Option Path) (e : EnvRecord) : Identity × SourceSet × Nat :=
  (identity realPath e, e.sources, e.kind.specificity)

/-- The summary of a merged group does not depend on the order of the reports. -/
theorem summary_mergeAll_of_perm {es' : List EnvRecord} (hp : es'.Perm es) (i : Identity) :
    (EnvRecord.mergeAll (group realPath es' i)).map (summary realPath) =
      (EnvRecord.mergeAll (group realPath es i)).map (summary realPath) := by
  have hg : (group realPath es' i).Perm (group realPath es i) := group_perm hp i
  by_cases hnil : group realPath es i = []
  · rw [hnil] at hg ⊢
    rw [hg.eq_nil]
  · have hnil' : group realPath es' i ≠ [] := fun h => hnil (by rw [h] at hg; exact hg.symm.eq_nil)
    obtain ⟨r, hr⟩ := EnvRecord.mergeAll_isSome hnil
    obtain ⟨r', hr'⟩ := EnvRecord.mergeAll_isSome hnil'
    rw [hr, hr', Option.map_some, Option.map_some]
    simp only [summary, identity_of_mergeAll hr, identity_of_mergeAll hr',
      EnvRecord.mergeAll_sources_of_perm hg hr hr',
        EnvRecord.mergeAll_specificity_of_perm hg hr hr']

/-- The records of a represented list, seen through a function. -/
theorem Represents.map_records {α : Type} (h : Represents realPath es s) (f : EnvRecord → α) :
    (s.records.map f).map some =
      (identities realPath es).map fun i => (EnvRecord.mergeAll (group realPath es i)).map f := by
  have hmap := congrArg (List.map (Option.map f)) h.records
  simpa [Function.comp_def] using hmap

theorem Represents.map_identity (h : Represents realPath es s) :
    s.records.map (identity realPath) = identities realPath es := by
  refine List.map_injective_iff.2 (fun _ _ => Option.some.inj) ?_
  rw [h.map_records]
  refine List.map_congr_left fun i hi => ?_
  have hne : group realPath es i ≠ [] := by
    obtain ⟨e, he, hid⟩ := mem_identities.1 hi
    exact List.ne_nil_of_mem (List.mem_filter.2 ⟨he, by simpa using hid⟩)
  obtain ⟨r, hr⟩ := EnvRecord.mergeAll_isSome hne
  rw [hr, Option.map_some, identity_of_mergeAll hr]

/-- Sets of the same reports in different orders have the same summaries. -/
theorem summaries_perm (hc : Coherent realPath) {es' : List EnvRecord} (hp : es'.Perm es) :
    ((ofList realPath es').records.map (summary realPath)).Perm
      ((ofList realPath es).records.map (summary realPath)) := by
  have hsame : ∀ i ∈ identities realPath es',
      (EnvRecord.mergeAll (group realPath es' i)).map (summary realPath) =
        (EnvRecord.mergeAll (group realPath es i)).map (summary realPath) :=
    fun i _ => summary_mergeAll_of_perm hp i
  have hsome : (((ofList realPath es').records.map (summary realPath)).map some).Perm
      (((ofList realPath es).records.map (summary realPath)).map some) := by
    rw [(represents_ofList hc es').map_records, (represents_ofList hc es).map_records,
      List.map_congr_left hsame]
    exact (identities_perm hp).map _
  simpa using hsome.filterMap id

/-- **The set is the list of merged groups.** On a coherent file system there is exactly one record
for each identity, in the order of first reports, and it is the group of that identity merged from
the left. For the same reports in another order the groups are the same up to order, and so are the
identity, the sources and the specificity of each record. -/
theorem records_are_merged_groups (fs : FileSystem) (hc : Coherent fs.realPath)
    (es : List EnvRecord) :
    (ofList fs.realPath es).records.map some =
        (identities fs.realPath es).map (fun i => EnvRecord.mergeAll (group fs.realPath es i)) ∧
      (ofList fs.realPath es).records.map (identity fs.realPath) = identities fs.realPath es ∧
      (identities fs.realPath es).Nodup ∧
      ∀ es' : List EnvRecord, es'.Perm es →
        (∀ i, (group fs.realPath es' i).Perm (group fs.realPath es i)) ∧
          ((ofList fs.realPath es').records.map (summary fs.realPath)).Perm
            ((ofList fs.realPath es).records.map (summary fs.realPath)) := by
  have hrep := represents_ofList hc es
  refine ⟨hrep.records, hrep.map_identity, nodup_identities _ _, fun es' hp => ⟨?_, ?_⟩⟩
  · exact group_perm hp
  · exact summaries_perm hc hp

/-- A file system with one interpreter and a link to it. -/
def linkedPython : FileSystem where
  present p := p.key = "/usr/bin/python3" ∨ p.key = "/usr/bin/python3.11"
  lstat _ := none
  stat p :=
    if p.key = "/usr/bin/python3" ∨
      p.key = "/usr/bin/python3.11" then some ⟨0, none, none, false, false⟩
    else none
  listDir _ := []
  readLink _ := none
  realPath p :=
    if p.key = "/usr/bin/python3" ∨ p.key = "/usr/bin/python3.11" then
      some ⟨"/usr/bin/python3.11"⟩
    else none
  readText _ := none

theorem coherent_linkedPython : Coherent linkedPython.realPath where
  of_key p q h := by simp [linkedPython, h]
  fixed p r h := by
    simp only [linkedPython, Option.ite_none_right_eq_some, Option.some_inj] at h
    obtain ⟨-, rfl⟩ := h
    decide +kernel

/-- The link and the interpreter make one group, in either order of the reports. -/
theorem records_are_merged_groups_linked :
    let link := (EnvRecord.new ⟨"/usr/bin/python3"⟩ .system).withSource .knownPath
    let elsewhere := EnvRecord.new ⟨"/opt/python"⟩ .venv
    let direct := (EnvRecord.new ⟨"/usr/bin/./python3.11"⟩ .conda).withSource .conda
    Coherent linkedPython.realPath ∧
      (ofList linkedPython.realPath [link, elsewhere, direct]).records.map some =
        [some (link.merge direct), some elsewhere] ∧
      ((ofList linkedPython.realPath [direct, elsewhere, link]).records.map
        (summary linkedPython.realPath)).Perm
        ((ofList linkedPython.realPath [link, elsewhere, direct]).records.map
          (summary linkedPython.realPath)) := by
  intro link elsewhere direct
  have h := records_are_merged_groups linkedPython coherent_linkedPython [link, elsewhere, direct]
  refine ⟨coherent_linkedPython, h.1.trans (by decide +kernel), (h.2.2.2 _ ?_).2⟩
  exact List.reverse_perm [link, elsewhere, direct]

end Identities

end EnvSet

end EnvDiscovery
