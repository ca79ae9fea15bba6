import EnvDiscovery.Proofs.Bridges

/-!
**Environments as clusters of reports.**

A merged record takes after one of its reports, the first of the most specific ones. Which reports
are merged is told by their keys. Where sharing a key is transitive, as on every coherent file
system, the records of a set are exactly its clusters: a report is merged with those that it shares
a key with, and with no others.

Main definitions:
* `EnvRecord.Leads`, `EnvRecord.TakesAfter` — the first of the most specific reports, and what is
  taken from it;
* `EnvSet.Akin` — records with a common key;
* `EnvSet.StandsFor` — a record of a set is merged from reports that include a given one;
* `EnvSet.Clustered`, `EnvSet.cluster` — sharing a key is transitive, and the reports that share a
  key with one.

Main results:
* `EnvRecord.exists_leads_of_mergeAll` — a merged record takes after the report that leads;
* `EnvSet.StandsFor.linked_of_akin` — on any file system, reports that no chain of keys joins have
  different records;
* `EnvSet.Clustered.standsFor_iff` — the record of a report is its cluster merged;
* `EnvSet.Clustered.pairwise_records` — no two records share a key.
-/

namespace EnvDiscovery

/-! ### The report that leads -/

namespace EnvRecord

variable {es : List EnvRecord} {d d' e r : EnvRecord}

/-- `d` is the first of the most specific reports. -/
def Leads (es : List EnvRecord) (d : EnvRecord) : Prop :=
  ∃ before after, es = before ++ d :: after ∧
    (∀ e ∈ before, e.kind.specificity < d.kind.specificity) ∧
    ∀ e ∈ after, e.kind.specificity ≤ d.kind.specificity

/-- `r` has the kind and the executable of `d`, and its location if it has one. -/
structure TakesAfter (r d : EnvRecord) : Prop where
  kind : r.kind = d.kind
  path : r.path = d.path
  location : ∀ l, d.location = some l → r.location = some l

theorem TakesAfter.refl (d : EnvRecord) : d.TakesAfter d := ⟨rfl, rfl, fun _ h => h⟩

theorem TakesAfter.fill (h : r.TakesAfter d) (e : EnvRecord) : (r.fill e).TakesAfter d where
  kind := h.kind
  path := h.path
  location l hl := by
    have hr : r.location = some l := h.location l hl
    simp [EnvRecord.fill, hr]

theorem Leads.mem (h : Leads es d) : d ∈ es := by
  obtain ⟨before, after, rfl, -, -⟩ := h
  simp

/-- There is only one report that leads. -/
theorem Leads.unique (h : Leads es d) (h' : Leads es d') : d = d' := by
  obtain ⟨before, after, rfl, hbefore, hafter⟩ := h
  obtain ⟨before', after', hsplit, hbefore', hafter'⟩ := h'
  rcases List.append_eq_append_iff.1 hsplit with ⟨between, rfl, hrest⟩ | ⟨between, rfl, hrest⟩
  · cases between with
    | nil => exact (List.cons.inj hrest).1
    | cons c between =>
        -- `d` would come before `d'` and be less specific
        obtain ⟨rfl, rfl⟩ := List.cons.inj hrest
        have hlt := hbefore' d (by simp)
        have hle := hafter d' (by simp)
        omega
  · cases between with
    | nil => exact (List.cons.inj hrest).1.symm
    | cons c between =>
        obtain ⟨rfl, rfl⟩ := List.cons.inj hrest
        have hlt := hbefore d' (by simp)
        have hle := hafter' d (by simp)
        omega

/-- The report that leads still leads when others are left out. -/
theorem Leads.filter {p : EnvRecord → Bool} (h : Leads es d) (hd : p d = true) :
    Leads (es.filter p) d := by
  obtain ⟨before, after, rfl, hbefore, hafter⟩ := h
  refine ⟨before.filter p, after.filter p, ?_, ?_, ?_⟩
  · rw [List.filter_append, List.filter_cons_of_pos hd]
  · intro e he
    exact hbefore e (List.mem_filter.1 he).1
  · intro e he
    exact hafter e (List.mem_filter.1 he).1

/-- One more report leads if it is more specific than the one that led. -/
theorem Leads.concat_of_lt (h : Leads es d) (hlt : d.kind.specificity < e.kind.specificity) :
    Leads (es ++ [e]) e := by
  obtain ⟨before, after, rfl, hbefore, hafter⟩ := h
  refine ⟨before ++ d :: after, [], rfl, ?_, by simp⟩
  intro c hc
  rcases List.mem_append.1 hc with hc | hc
  · exact (hbefore c hc).trans hlt
  · rcases List.mem_cons.1 hc with rfl | hc
    · exact hlt
    · exact (hafter c hc).trans_lt hlt

theorem Leads.concat_of_le (h : Leads es d) (hle : e.kind.specificity ≤ d.kind.specificity) :
    Leads (es ++ [e]) d := by
  obtain ⟨before, after, rfl, hbefore, hafter⟩ := h
  refine ⟨before, after ++ [e], by simp, hbefore, ?_⟩
  intro c hc
  rcases List.mem_append.1 hc with hc | hc
  · exact hafter c hc
  · obtain rfl : c = e := by simpa using hc
    exact hle

/-- **The step**: after one more report the merged record takes after the one that leads then. -/
theorem Leads.exists_merge (h : Leads es d) (hr : r.TakesAfter d) (e : EnvRecord) :
    ∃ d', Leads (es ++ [e]) d' ∧ (r.merge e).TakesAfter d' := by
  -- a tie goes to the record that is there
  rcases merge_cases r e with ⟨hlt, hmerge⟩ | ⟨hle, hmerge⟩
  · rw [hr.kind] at hlt
    refine ⟨e, h.concat_of_lt hlt, ?_⟩
    rw [hmerge]
    exact (TakesAfter.refl e).fill r
  · rw [hr.kind] at hle
    refine ⟨d, h.concat_of_le hle, ?_⟩
    rw [hmerge]
    exact hr.fill e

/-- **The run**: a merged record takes after the report that leads. -/
theorem exists_leads_of_mergeAll (h : mergeAll es = some r) : ∃ d, Leads es d ∧ r.TakesAfter d := by
  induction es using List.reverseRecOn generalizing r with
  | nil => simp [mergeAll] at h
  | append_singleton es e ih =>
      by_cases hnil : es = []
      · subst hnil
        obtain rfl : e = r := by simpa using h
        exact ⟨e, ⟨[], [], rfl, by simp, by simp⟩, .refl e⟩
      · obtain ⟨s, hs⟩ := mergeAll_isSome hnil
        obtain ⟨d, hd, hsd⟩ := ih hs
        rw [mergeAll_concat hs, Option.some_inj] at h
        subst h
        exact hd.exists_merge hsd e

theorem Leads.takesAfter_of_mergeAll (hd : Leads es d) (h : mergeAll es = some r) :
    r.TakesAfter d := by
  obtain ⟨d', hd', hr⟩ := exists_leads_of_mergeAll h
  rwa [hd.unique hd']

end EnvRecord

/-! ### Any file system -/

namespace EnvSet

open EnvRecord

/-- A record with what lies behind the links of its executable. -/
def Report.of (realPath : Path → Option Path) (e : EnvRecord) : Report := ⟨e, realPath e.path⟩

/-- Two records are about the same environment: they have a key in common. -/
def Akin (realPath : Path → Option Path) (d e : EnvRecord) : Prop :=
  (Report.of realPath d).Shares (.of realPath e)

instance (realPath : Path → Option Path) (d e : EnvRecord) : Decidable (Akin realPath d e) :=
  inferInstanceAs (Decidable (Report.Shares _ _))

/-- The record `r` of the set is merged from reports that include `d`. -/
def StandsFor (realPath : Path → Option Path) (es : List EnvRecord) (r d : EnvRecord) : Prop :=
  ∃ p, (Report.of realPath d, p) ∈ placed (es.map (.of realPath)) ∧
    (ofList realPath es).records[p]? = some r

section AnyFileSystem

variable {realPath : Path → Option Path} {es : List EnvRecord} {d e r s : EnvRecord}

theorem Akin.refl (d : EnvRecord) : Akin realPath d d := Report.Shares.refl _

theorem Akin.symm (h : Akin realPath d e) : Akin realPath e d := Report.Shares.symm h

/-- Only the executables of the records matter. -/
theorem akin_congr (hr : r.path = d.path) (hs : s.path = e.path) :
    Akin realPath r s ↔ Akin realPath d e := by
  simp only [Akin, Report.Shares, Report.keys, Report.of, keysOf, hr, hs]

theorem records_getElem? (realPath : Path → Option Path) (es : List EnvRecord) (p : Nat) :
    (ofList realPath es).records[p]? = mergeAll (recordsAt (placed (es.map (.of realPath))) p) := by
  rw [ofList_eq_ofReports]
  exact (tracks_ofReports _).records p

theorem exists_placed (realPath : Path → Option Path) (h : d ∈ es) :
    ∃ p, (Report.of realPath d, p) ∈ placed (es.map (.of realPath)) :=
  exists_place (List.mem_map_of_mem h)

theorem mem_of_placed {p : Nat} (h : (Report.of realPath d, p) ∈ placed (es.map (.of realPath))) :
    d ∈ es := by
  obtain ⟨c, hc, hcd⟩ := List.mem_map.1 (fst_mem_of_mem_placed h)
  obtain rfl : c = d := congrArg Report.record hcd
  exact hc

theorem mem_recordsAt {p : Nat} :
    d ∈ recordsAt (placed (es.map (.of realPath))) p ↔
      (Report.of realPath d, p) ∈ placed (es.map (.of realPath)) := by
  constructor
  · intro h
    obtain ⟨⟨c, q⟩, hat, rfl⟩ := List.mem_map.1 h
    obtain ⟨hmem, hplace⟩ := List.mem_filter.1 hat
    obtain rfl : q = p := by simpa using hplace
    obtain ⟨b, -, rfl⟩ := List.mem_map.1 (fst_mem_of_mem_placed hmem)
    exact hmem
  · intro h
    exact List.mem_map.2 ⟨_, List.mem_filter.2 ⟨h, by simp⟩, rfl⟩

/-- The record at a place takes after a report at that place. -/
theorem exists_placed_takesAfter {p : Nat} (h : (ofList realPath es).records[p]? = some r) :
    ∃ d, (Report.of realPath d, p) ∈ placed (es.map (.of realPath)) ∧ r.TakesAfter d := by
  rw [records_getElem?] at h
  obtain ⟨d, hd, hr⟩ := exists_leads_of_mergeAll h
  exact ⟨d, mem_recordsAt.1 hd.mem, hr⟩

/-- Every report has its record. -/
theorem exists_standsFor (realPath : Path → Option Path) (h : d ∈ es) :
    ∃ r ∈ (ofList realPath es).records, StandsFor realPath es r d := by
  obtain ⟨p, hp⟩ := exists_placed realPath h
  obtain ⟨r, hr⟩ := mergeAll_isSome (List.ne_nil_of_mem (mem_recordsAt.2 hp))
  rw [← records_getElem?] at hr
  exact ⟨r, List.mem_of_getElem? hr, p, hp, hr⟩

/-- Every record stands for a report that it takes after. -/
theorem exists_takesAfter (h : r ∈ (ofList realPath es).records) :
    ∃ d ∈ es, StandsFor realPath es r d ∧ r.TakesAfter d := by
  obtain ⟨p, hp⟩ := List.mem_iff_getElem?.1 h
  obtain ⟨d, hd, hr⟩ := exists_placed_takesAfter hp
  exact ⟨d, mem_of_placed hd, ⟨p, hd, hp⟩, hr⟩

theorem path_mem_of_mem (h : r ∈ (ofList realPath es).records) : r.path ∈ es.map (·.path) := by
  obtain ⟨d, hd, -, hr⟩ := exists_takesAfter h
  exact List.mem_map.2 ⟨d, hd, hr.path.symm⟩

/-- The record of a report names its sources and is at least as specific. -/
theorem StandsFor.covers (h : StandsFor realPath es r d) : r.Covers d := by
  obtain ⟨p, hd, hp⟩ := h
  rw [records_getElem?] at hp
  have hmem := mem_recordsAt.2 hd
  refine ⟨?_, ?_⟩
  · intro x hx
    rw [mergeAll_sources_contains hp, List.any_eq_true]
    exact ⟨d, hmem, hx⟩
  · obtain ⟨c, ⟨before, after, hsplit, hbefore, hafter⟩, hr⟩ := exists_leads_of_mergeAll hp
    rw [hsplit, List.mem_append, List.mem_cons] at hmem
    rw [hr.kind]
    rcases hmem with hmem | rfl | hmem
    · exact (hbefore d hmem).le
    · exact le_rfl
    · exact hafter d hmem

/-- Records that share a key stand for reports that a chain of keys joins. -/
theorem StandsFor.linked_of_akin (hr : StandsFor realPath es r d) (hs : StandsFor realPath es s e)
    (h : Akin realPath r s) : Linked (es.map (.of realPath)) (.of realPath d) (.of realPath e) := by
  obtain ⟨p, hd, hp⟩ := hr
  obtain ⟨q, he, hq⟩ := hs
  obtain ⟨a, ha, hra⟩ := exists_placed_takesAfter hp
  obtain ⟨b, hb, hsb⟩ := exists_placed_takesAfter hq
  -- from `d` to the report that its record takes after, across the key, and back to `e`
  have hab : Akin realPath a b := (akin_congr hra.path hsb.path).1 h
  have hda := linked_of_same_place _ _ hd _ ha rfl
  have hbe := linked_of_same_place _ _ hb _ he rfl
  have hlink := linked_of_shares (fst_mem_of_mem_placed ha) (fst_mem_of_mem_placed hb) hab
  exact (hda.trans hlink).trans hbe

end AnyFileSystem

/-! ### Clusters -/

/-- Sharing a key is transitive among the records. -/
def Clustered (realPath : Path → Option Path) (es : List EnvRecord) : Prop :=
  ∀ a ∈ es, ∀ b ∈ es, ∀ c ∈ es, Akin realPath a b → Akin realPath b c → Akin realPath a c

/-- The records that share a key with `d`, in order. -/
def cluster (realPath : Path → Option Path) (es : List EnvRecord) (d : EnvRecord) :
    List EnvRecord :=
  es.filter (Akin realPath d ·)

section Clusters

variable {realPath : Path → Option Path} {es es' : List EnvRecord} {a b d e r s : EnvRecord}

/-- On a coherent file system sharing a key is having one identity. -/
theorem akin_iff_identity_eq (hc : Coherent realPath) :
    Akin realPath d e ↔ identity realPath d = identity realPath e := by
  constructor
  · rintro ⟨k, hd, he⟩
    exact identity_eq_of_common_key hc hd he
  · intro h
    obtain ⟨k, hd, he⟩ := common_key_of_identity_eq h
    exact ⟨k, hd, he⟩

/-- **A coherent file system has clusters only.** -/
theorem clustered_of_coherent (hc : Coherent realPath) (es : List EnvRecord) :
    Clustered realPath es := by
  intro a _ b _ c _ hab hbc
  rw [akin_iff_identity_eq hc] at hab hbc ⊢
  exact hab.trans hbc

theorem cluster_filter (p : EnvRecord → Bool) :
    cluster realPath (es.filter p) d = (cluster realPath es d).filter p := by
  simp only [cluster, List.filter_filter, Bool.and_comm]

theorem cluster_congr (h : d.path = e.path) : cluster realPath es d = cluster realPath es e := by
  simp only [cluster, akin_congr h rfl]

theorem mem_cluster : e ∈ cluster realPath es d ↔ e ∈ es ∧ Akin realPath d e := by
  simp [cluster]

namespace Clustered

theorem subset (h : Clustered realPath es) (hsub : es' ⊆ es) : Clustered realPath es' :=
  fun a ha b hb c hc => h a (hsub ha) b (hsub hb) c (hsub hc)

/-- Sharing a key is transitive for all records with executables of the reports. -/
theorem akin_trans (h : Clustered realPath es) (ha : a.path ∈ es.map (·.path))
    (hb : b.path ∈ es.map (·.path)) (hd : d.path ∈ es.map (·.path)) (hab : Akin realPath a b)
    (hbd : Akin realPath b d) : Akin realPath a d := by
  obtain ⟨a', ha', hapath⟩ := List.mem_map.1 ha
  obtain ⟨b', hb', hbpath⟩ := List.mem_map.1 hb
  obtain ⟨d', hd', hdpath⟩ := List.mem_map.1 hd
  rw [← akin_congr hapath hbpath] at hab
  rw [← akin_congr hbpath hdpath] at hbd
  exact (akin_congr hapath hdpath).1 (h a' ha' b' hb' d' hd' hab hbd)

theorem akin_of_linked (h : Clustered realPath es) (hd : d ∈ es)
    (hlinked : Linked (es.map (.of realPath)) (.of realPath d) (.of realPath e)) :
    Akin realPath d e := by
  -- along the chain, every report shares a key with the first
  suffices ∀ x, Linked (es.map (.of realPath)) (.of realPath d) x →
    (Report.of realPath d).Shares x from
    this _ hlinked
  intro x hx
  induction hx with
  | refl => exact .refl _
  | tail _ hstep ih =>
      obtain ⟨hreport, hreport', hshares⟩ := hstep
      obtain ⟨b, hb, rfl⟩ := List.mem_map.1 hreport
      obtain ⟨c, hc, rfl⟩ := List.mem_map.1 hreport'
      exact h d hd b hb c hc ih hshares

theorem noBridges (h : Clustered realPath es) : NoBridges (es.map (.of realPath)) := by
  intro older r newer hsplit a ha b hb har hbr
  have hmem : ∀ x ∈ older ++ r :: newer, ∃ e ∈ es, Report.of realPath e = x := by
    intro x hx
    rw [← hsplit] at hx
    exact List.mem_map.1 hx
  obtain ⟨a', ha', rfl⟩ := hmem a (by simp [ha])
  obtain ⟨b', hb', rfl⟩ := hmem b (by simp [hb])
  obtain ⟨r', hr', rfl⟩ := hmem r (by simp)
  exact linked_of_shares ha hb (h a' ha' r' hr' b' hb' har hbr.symm)

/-- Reports are at one place if and only if they share a key. -/
theorem place_eq_iff (h : Clustered realPath es) {p q : Nat}
    (hd : (Report.of realPath d, p) ∈ placed (es.map (.of realPath)))
    (he : (Report.of realPath e, q) ∈ placed (es.map (.of realPath))) :
    p = q ↔ Akin realPath d e := by
  constructor
  · intro hpq
    exact h.akin_of_linked (mem_of_placed hd) (linked_of_same_place _ _ hd _ he hpq)
  · intro hakin
    exact sharedTogether_of_noBridges h.noBridges _ hd _ he hakin

/-- The reports at the place of `d` are its cluster. -/
theorem recordsAt_eq (h : Clustered realPath es) {p : Nat}
    (hd : (Report.of realPath d, p) ∈ placed (es.map (.of realPath))) :
    recordsAt (placed (es.map (.of realPath))) p = cluster realPath es d := by
  have hplaces : (placed (es.map (.of realPath))).filter (·.2 = p) =
      (placed (es.map (.of realPath))).filter (fun x => decide (Akin realPath d x.1.record)) := by
    refine List.filter_congr ?_
    rintro ⟨x, q⟩ hx
    obtain ⟨e, -, rfl⟩ := List.mem_map.1 (fst_mem_of_mem_placed hx)
    exact decide_eq_decide.2 (eq_comm.trans (h.place_eq_iff hd hx))
  have hrecords : (placed (es.map (.of realPath))).map (·.1.record) = es := by
    have hmap := congrArg (List.map Report.record) (map_fst_placed (es.map (.of realPath)))
    simpa [Function.comp_def, Report.of] using hmap
  calc recordsAt (placed (es.map (.of realPath))) p
      = ((placed (es.map (.of realPath))).filter
          (fun x => decide (Akin realPath d x.1.record))).map
            (·.1.record) := by rw [recordsAt, hplaces]
    _ = ((placed (es.map (.of realPath))).map (·.1.record)).filter (Akin realPath d ·) := by
        rw [List.filter_map, Function.comp_def]
    _ = cluster realPath es d := by rw [hrecords, cluster]

/-- **The record of a report is its cluster merged.** -/
theorem standsFor_iff (h : Clustered realPath es) :
    StandsFor realPath es r d ↔ d ∈ es ∧ mergeAll (cluster realPath es d) = some r := by
  constructor
  · rintro ⟨p, hd, hp⟩
    rw [records_getElem?, h.recordsAt_eq hd] at hp
    exact ⟨mem_of_placed hd, hp⟩
  · rintro ⟨hd, hr⟩
    obtain ⟨p, hp⟩ := exists_placed realPath hd
    refine ⟨p, hp, ?_⟩
    rw [records_getElem?, h.recordsAt_eq hp, hr]

/-- The record of a report shares a key with it. -/
theorem akin_of_standsFor (h : Clustered realPath es) (hr : StandsFor realPath es r d) :
    Akin realPath r d := by
  obtain ⟨hd, hr⟩ := h.standsFor_iff.1 hr
  obtain ⟨c, hc, hrc⟩ := exists_leads_of_mergeAll hr
  exact ((akin_congr rfl hrc.path).2 (mem_cluster.1 hc.mem).2).symm

/-- Two reports have one record if and only if they share a key. -/
theorem record_eq_iff (h : Clustered realPath es) (hr : StandsFor realPath es r d)
    (hs : StandsFor realPath es s e) : r = s ↔ Akin realPath d e := by
  constructor
  · rintro rfl
    exact h.akin_of_linked (h.standsFor_iff.1 hr).1 (hr.linked_of_akin hs (.refl r))
  · intro hakin
    obtain ⟨p, hd, hp⟩ := hr
    obtain ⟨q, he, hq⟩ := hs
    obtain rfl : p = q := (h.place_eq_iff hd he).2 hakin
    exact Option.some.inj (hp.symm.trans hq)

/-- A record takes after the report that leads its cluster. -/
theorem exists_leads (h : Clustered realPath es) (hr : r ∈ (ofList realPath es).records) :
    ∃ d ∈ es, Leads (cluster realPath es d) d ∧ r.TakesAfter d := by
  obtain ⟨c, -, hstands, hrc⟩ := exists_takesAfter hr
  obtain ⟨-, hmerged⟩ := h.standsFor_iff.1 hstands
  obtain ⟨d, hleads, hrd⟩ := exists_leads_of_mergeAll hmerged
  -- both have the executable of the record, so both have the same cluster
  have hcluster : cluster realPath es d = cluster realPath es c :=
    cluster_congr (hrd.path.symm.trans hrc.path)
  refine ⟨d, (mem_cluster.1 hleads.mem).1, ?_, hrd⟩
  rwa [hcluster]

theorem eq_of_akin (h : Clustered realPath es) (hr : r ∈ (ofList realPath es).records)
    (hs : s ∈ (ofList realPath es).records) (hakin : Akin realPath r s) : r = s := by
  obtain ⟨d, -, hrd, hrpath⟩ := exists_takesAfter hr
  obtain ⟨e, -, hse, hspath⟩ := exists_takesAfter hs
  exact (h.record_eq_iff hrd hse).2 ((akin_congr hrpath.path hspath.path).1 hakin)

/-- **No two records share a key.** -/
theorem pairwise_records (h : Clustered realPath es) :
    (ofList realPath es).records.Pairwise fun r s => ¬Akin realPath r s := by
  rw [List.pairwise_iff_getElem]
  intro i j hi hj hij hakin
  obtain ⟨d, hd, hrd⟩ := exists_placed_takesAfter (List.getElem?_eq_getElem hi)
  obtain ⟨e, he, hse⟩ := exists_placed_takesAfter (List.getElem?_eq_getElem hj)
  have hplace := (h.place_eq_iff hd he).2 ((akin_congr hrd.path hse.path).1 hakin)
  omega

theorem nodup_paths (h : Clustered realPath es) :
    ((ofList realPath es).records.map (·.path)).Nodup := by
  refine List.pairwise_map.2 (h.pairwise_records.imp ?_)
  intro r s hapart hpath
  exact hapart ((akin_congr hpath rfl).2 (.refl s))

end Clustered

end Clusters

end EnvSet

end EnvDiscovery
