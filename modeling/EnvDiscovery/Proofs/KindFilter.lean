import EnvDiscovery.Proofs.Clusters
import EnvDiscovery.Proofs.Search

/-!
**Searching for some kinds.**

A query for some kinds filters the reports, and the kind of an environment is only known once its
reports are merged. So an environment is found if one of its reports is of a wanted kind, and the
record that is found takes after the first of the most specific of these. It is another record than
that of the unrestricted query, of another kind and maybe with another executable, if the most
specific of all reports is of no wanted kind.

Main definitions:
* `Query.ofAnyKind`, `Query.ofKinds` — a query without a restriction of kinds, and with one;
* `Composite.Narrows` — how the records of a query for some kinds come from those of a query for any
  kind.

Main results:
* `Composite.collect_ofKinds` — asking for some kinds is leaving out the reports of other kinds;
* `Composite.narrows_ofList` — how leaving out reports changes the records of clusters;
* `Composite.kinds_restrict_reports` — **searches for some kinds**, on every file system and in
  every session.
-/

namespace EnvDiscovery

/-- The query without its restriction of kinds. -/
def Query.ofAnyKind (q : Query) : Query := { q with kinds := none }

/-- The query for some kinds only. -/
def Query.ofKinds (q : Query) (kinds : List EnvKind) : Query := { q with kinds := some kinds }

/-- What a search gathers does not depend on the wanted kinds. -/
theorem Session.gathered_of_scope (s : Session) (q q' : Query) (h : q.scope = q'.scope) :
    s.gathered q = s.gathered q' := by
  have hroots : q.roots = q'.roots := by simp [Query.roots, h]
  have hsources : s.searched q = s.searched q' := by
    rw [searched, searched, Query.includesNonRooted, h]; rfl
  have hfolders : s.searchedRoots q = s.searchedRoots q' := by
    simp [searchedRoots, Workspace.searched, Query.includesRoot, hroots]
  rw [gathered, gathered, hsources, hfolders]

namespace Composite

open EnvRecord EnvSet

/-- How the records `narrow` of a query for some kinds come from the reports, and how they compare
with the records `wide` of the same query for any kind. -/
structure Narrows (realPath : Path → Option Path) (kinds : List EnvKind)
    (reports wide narrow : List EnvRecord) :
    Prop where
  /-- No environment is found twice. -/
  once : narrow.Pairwise fun r s => ¬Akin realPath r s
  /-- Every environment that is found is one of the wide ones. -/
  belongs : ∀ r ∈ narrow, ∃ w ∈ wide, Akin realPath r w
  /-- Of these, the ones with a report of a wanted kind are found. -/
  reported : ∀ w ∈ wide, (∃ r ∈ narrow, Akin realPath r w) ↔ ∃ e ∈ reports, e.kind ∈ kinds ∧
    Akin realPath e w
  /-- A record takes after the first of the most specific reports of wanted kinds. -/
  leader : ∀ r ∈ narrow, ∃ d, Leads ((cluster realPath reports r).filter (·.kind ∈ kinds)) d ∧
    r.TakesAfter d
  /-- Where the merged kind is wanted, kind and executable are those of the wide record. -/
  kept : ∀ w ∈ wide, w.kind ∈ kinds → ∃ r ∈ narrow, r.kind = w.kind ∧ r.path = w.path
  /-- The executables are those of the wide records of wanted kinds if and only if every environment
  with a report of a wanted kind has a wanted kind. -/
  exact_iff : (narrow.map (·.path)).Perm ((wide.filter (·.kind ∈ kinds)).map (·.path)) ↔
    ∀ w ∈ wide, (∃ e ∈ reports, e.kind ∈ kinds ∧ Akin realPath e w) → w.kind ∈ kinds

section Restriction

variable {realPath : Path → Option Path} {kinds : List EnvKind} {es : List EnvRecord}
  {a b d e r s w : EnvRecord}

/-- A query for some kinds joins the reports of these kinds. -/
theorem collect_ofKinds (fs : FileSystem) (q : Query) (kinds : List EnvKind)
    (found : List EnvRecord) :
    collect fs (q.ofKinds kinds) found = collect fs q.ofAnyKind
      (found.filter (·.kind ∈ kinds)) := by
  have hadmits : ∀ e, admits fs (q.ofKinds kinds) e =
      (admits fs q.ofAnyKind e && decide (e.kind ∈ kinds)) := by
    intro e
    have hscope : (q.ofKinds kinds).inScope e = q.ofAnyKind.inScope e := rfl
    rw [admits, admits, hscope, Bool.eq_iff_iff]
    simp only [Query.matchesKind, Query.ofKinds, Query.ofAnyKind, Bool.and_eq_true,
      List.contains_iff_mem, decide_eq_true_iff, true_and]
    tauto
  rw [collect, collect, List.filter_filter]
  exact congrArg (fun es => (ofList fs.realPath es).records)
    (List.filter_congr fun e _ => hadmits e)

section Clusters

variable (hc : Clustered realPath es)
include hc

/-- A record of the reports of wanted kinds is about the environment of one of all reports. -/
theorem exists_akin_of_mem (hr : r ∈ (ofList realPath (es.filter (·.kind ∈ kinds))).records) :
    ∃ w ∈ (ofList realPath es).records, Akin realPath r w := by
  obtain ⟨d, hd, -, hrd⟩ := exists_takesAfter hr
  obtain ⟨w, hw, hstands⟩ := exists_standsFor realPath (List.mem_filter.1 hd).1
  exact ⟨w, hw, (akin_congr hrd.path rfl).2 (hc.akin_of_standsFor hstands).symm⟩

theorem exists_akin_iff (hw : w ∈ (ofList realPath es).records) :
    (∃ r ∈ (ofList realPath (es.filter (·.kind ∈ kinds))).records, Akin realPath r w) ↔
      ∃ e ∈ es, e.kind ∈ kinds ∧ Akin realPath e w := by
  have hwide := path_mem_of_mem hw
  constructor
  · rintro ⟨r, hr, hakin⟩
    obtain ⟨d, hd, -, hrd⟩ := exists_takesAfter hr
    obtain ⟨hd, hkind⟩ := List.mem_filter.1 hd
    exact ⟨d, hd, by simpa using hkind, (akin_congr hrd.path rfl).1 hakin⟩
  · rintro ⟨e, he, hkind, hakin⟩
    have hmem : e ∈ es.filter (·.kind ∈ kinds) := List.mem_filter.2 ⟨he, by simpa using hkind⟩
    obtain ⟨r, hr, hstands⟩ := exists_standsFor realPath hmem
    have hre : Akin realPath r e :=
      (hc.subset (List.filter_subset_self _)).akin_of_standsFor hstands
    have hpath : r.path ∈ es.map (·.path) :=
      List.map_subset _ (List.filter_subset_self _) (path_mem_of_mem hr)
    exact ⟨r, hr, hc.akin_trans hpath (List.mem_map_of_mem he) hwide hre hakin⟩

/-- Where the report that leads is of a wanted kind, it leads the reports of wanted kinds. -/
theorem exists_same_of_kind (hw : w ∈ (ofList realPath es).records) (hkind : w.kind ∈ kinds) :
    ∃ r ∈ (ofList realPath (es.filter (·.kind ∈ kinds))).records, r.kind = w.kind ∧
    r.path = w.path := by
  obtain ⟨d, hd, hleads, hwd⟩ := hc.exists_leads hw
  have hwanted : decide (d.kind ∈ kinds) = true := by simpa [← hwd.kind] using hkind
  have hmem : d ∈ es.filter (·.kind ∈ kinds) := List.mem_filter.2 ⟨hd, hwanted⟩
  obtain ⟨r, hr, hstands⟩ := exists_standsFor realPath hmem
  obtain ⟨-, hmerged⟩ := (hc.subset (List.filter_subset_self _)).standsFor_iff.1 hstands
  -- the cluster of `d` lost only reports of other kinds, and `d` still leads it
  rw [cluster_filter] at hmerged
  have hrd : r.TakesAfter d := (hleads.filter hwanted).takesAfter_of_mergeAll hmerged
  exact ⟨r, hr, hrd.kind.trans hwd.kind.symm, hrd.path.trans hwd.path.symm⟩

end Clusters

/-- **The records of some kinds**, where the reports are clusters. -/
theorem narrows_ofList (hc : Clustered realPath es) (kinds : List EnvKind) :
    Narrows realPath kinds es (ofList realPath es).records
      (ofList realPath (es.filter (·.kind ∈ kinds))).records := by
  have hsub : Clustered realPath (es.filter (·.kind ∈ kinds)) :=
    hc.subset (List.filter_subset_self _)
  refine ⟨hsub.pairwise_records, fun r hr => exists_akin_of_mem hc hr,
    fun w hw => exists_akin_iff hc hw, ?_, fun w hw => exists_same_of_kind hc hw, ?_, ?_⟩
  · intro r hr
    obtain ⟨d, -, hleads, hrd⟩ := hsub.exists_leads hr
    rw [cluster_filter, ← cluster_congr hrd.path] at hleads
    exact ⟨d, hleads, hrd⟩
  · intro hperm w hw hreported
    -- the record that is found has the executable of a wide record of a wanted kind, which can only
    -- be `w`
    obtain ⟨r, hr, hakin⟩ := (exists_akin_iff hc hw).2 hreported
    obtain ⟨v, hv, hpath⟩ := List.mem_map.1 (hperm.subset (List.mem_map_of_mem hr))
    obtain ⟨hv, hkind⟩ := List.mem_filter.1 hv
    obtain rfl : v = w := hc.eq_of_akin hv hw ((akin_congr hpath rfl).2 hakin)
    simpa using hkind
  · intro hall
    have hfiltered : (((ofList realPath es).records.filter (·.kind ∈ kinds)).map (·.path)).Nodup :=
      hc.nodup_paths.sublist (List.filter_sublist.map _)
    -- no executable comes twice on either side, so it is enough to compare members
    rw [List.perm_ext_iff_of_nodup hsub.nodup_paths hfiltered]
    intro p
    constructor
    · intro hp
      obtain ⟨r, hr, rfl⟩ := List.mem_map.1 hp
      obtain ⟨w, hw, hakin⟩ := exists_akin_of_mem hc hr
      have hkind : w.kind ∈ kinds := hall w hw ((exists_akin_iff hc hw).1 ⟨r, hr, hakin⟩)
      obtain ⟨s, hs, -, hpath⟩ := exists_same_of_kind hc hw hkind
      obtain rfl : s = r := hsub.eq_of_akin hs hr ((akin_congr hpath rfl).2 hakin.symm)
      exact List.mem_map.2 ⟨w, List.mem_filter.2 ⟨hw, by simpa using hkind⟩, hpath.symm⟩
    · intro hp
      obtain ⟨w, hw, rfl⟩ := List.mem_map.1 hp
      obtain ⟨hw, hkind⟩ := List.mem_filter.1 hw
      obtain ⟨r, hr, -, hpath⟩ := exists_same_of_kind hc hw (by simpa using hkind)
      exact List.mem_map.2 ⟨r, hr, hpath⟩

end Restriction

/-- **Searches for some kinds.** The searches of a session for some kinds and for any kind join the
same reports, and the first one leaves out those of other kinds. Where the admitted reports are
clusters, as on every coherent file system, it finds the environments that have a report of a wanted
kind, each once, among them every environment whose merged kind is wanted, with the same kind and
executable. -/
theorem kinds_restrict_reports (fs : FileSystem) (q : Query) (kinds : List EnvKind) :
    (∀ s : Session, s.machine.fs = fs → ∃ gathered : Option (List EnvRecord),
      (∀ found, gathered = some found → Interleaving (s.streams q) found) ∧
        ((Session.search q.ofAnyKind).run s).1 = gathered.map (collect fs q.ofAnyKind) ∧
        ((Session.search (q.ofKinds kinds)).run s).1 =
          gathered.map (collect fs (q.ofKinds kinds))) ∧
    ∀ found : List EnvRecord,
      collect fs (q.ofKinds kinds) found = collect fs q.ofAnyKind (found.filter (·.kind ∈ kinds)) ∧
        (Coherent fs.realPath → Clustered fs.realPath (found.filter (admits fs q.ofAnyKind))) ∧
        (Clustered fs.realPath (found.filter (admits fs q.ofAnyKind)) →
          Narrows fs.realPath kinds (found.filter (admits fs q.ofAnyKind))
          (collect fs q.ofAnyKind found)
            (collect fs (q.ofKinds kinds) found)) := by
  refine ⟨?_, fun found => ⟨collect_ofKinds fs q kinds found,
    fun hc => clustered_of_coherent hc _, ?_⟩⟩
  · rintro s rfl
    refine ⟨s.gathered q, fun found => Session.gathered_interleaving, ?_, ?_⟩
    · rw [Session.search_run_result, s.gathered_of_scope q.ofAnyKind q rfl]
    · rw [Session.search_run_result, s.gathered_of_scope (q.ofKinds kinds) q rfl]
  · intro hc
    have hfilter : (found.filter (·.kind ∈ kinds)).filter (admits fs q.ofAnyKind) =
        (found.filter (admits fs q.ofAnyKind)).filter (·.kind ∈ kinds) := by
      simp only [List.filter_filter, Bool.and_comm]
    rw [collect_ofKinds, collect, collect, hfilter]
    exact narrows_ofList hc kinds

/-- An interpreter that is reported as that of a conda environment, and by its link as one of the
system, is found by a search for the second kind too. -/
theorem kinds_restrict_reports_linked :
    let link := (EnvRecord.new ⟨"/usr/bin/python3"⟩ .system).withSource .knownPath
    let direct := (EnvRecord.new ⟨"/usr/bin/./python3.11"⟩ .conda).withSource .conda
    let s := linkedSession [link, direct]
    Coherent linkedPython.realPath ∧
      ((Session.search Query.all.ofAnyKind).run s).1 = some [link.merge direct] ∧
      ((Session.search (Query.all.ofKinds [.system])).run s).1 = some [link] ∧
      (∃ gathered : Option (List EnvRecord),
        ((Session.search Query.all.ofAnyKind).run s).1 =
          gathered.map (collect linkedPython Query.all.ofAnyKind) ∧
          ((Session.search (Query.all.ofKinds [.system])).run s).1 =
            gathered.map (collect linkedPython (Query.all.ofKinds [.system]))) ∧
      Narrows linkedPython.realPath [.system] [link, direct] [link.merge direct] [link] := by
  intro link direct s
  obtain ⟨hsession, hfound⟩ := kinds_restrict_reports linkedPython .all [.system]
  obtain ⟨gathered, -, hjoined⟩ := hsession s rfl
  obtain ⟨-, hclustered, hnarrows⟩ := hfound [link, direct]
  have hwide : ((Session.search Query.all.ofAnyKind).run s).1 = some [link.merge direct] := by
    decide +kernel
  have hsome : ((Session.search (Query.all.ofKinds [.system])).run s).1 = some [link] := by
    decide +kernel
  refine ⟨coherent_linkedPython, hwide, hsome, ⟨gathered, hjoined⟩, ?_⟩
  have hadmitted : [link, direct].filter (admits linkedPython Query.all.ofAnyKind) =
      [link, direct] := by
    decide +kernel
  have hmerged : collect linkedPython Query.all.ofAnyKind [link, direct] = [link.merge direct] := by
    decide +kernel
  have hrestricted : collect linkedPython (Query.all.ofKinds [.system]) [link, direct] =
      [link] := by
    decide +kernel
  have h := hnarrows (hclustered coherent_linkedPython)
  rwa [hadmitted, hmerged, hrestricted] at h

/-- A file system where a path goes back from a link to a directory: it is spelled like one file and
leads to another. -/
def bridgedPython : FileSystem where
  present _ := true
  lstat _ := none
  stat _ := some ⟨0, none, none, false, false⟩
  listDir _ := []
  readLink _ := none
  realPath p := if p.text = "/a/link/../python" then some ⟨"/real/python"⟩ else some p
  readText _ := none

/-- A search for some kinds finds an environment whose merged kind is none of them, on a coherent
file system. On one with bridges it may also miss an environment: the report that kept two others
apart is left out. -/
theorem restricted_search_differs :
    (let link := EnvRecord.new ⟨"/usr/bin/python3"⟩ .system
      let direct := EnvRecord.new ⟨"/usr/bin/python3.11"⟩ .conda
      (collect linkedPython (Query.all.ofKinds [.system]) [link, direct]).map (·.path) =
        [link.path] ∧
        ((collect linkedPython Query.all [link, direct]).filter (·.kind ∈ [.system])).map (·.path) =
          []) ∧
    (let first := EnvRecord.new ⟨"/a/python"⟩ .otherGlobal
      let second := EnvRecord.new ⟨"/real/python"⟩ .system
      let third := EnvRecord.new ⟨"/a/link/../python"⟩ .conda
      let kinds := [.system, .conda]
      (collect bridgedPython (Query.all.ofKinds kinds) [first, second, third]).map (·.path) =
        [third.path] ∧
        ((collect bridgedPython Query.all [first, second, third]).filter (·.kind ∈ kinds)).map
          (·.path) =
          [third.path, second.path]) := by
  decide +kernel

end Composite

end EnvDiscovery
