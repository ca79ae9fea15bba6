import EnvDiscovery.Proofs.Clusters

/-!
**What a merged record keeps of its reports.**

Merging a report into a record can make it more specific, name more sources, bring a version of
which more is known, or fill in a detail that was missing. None of this is ever taken back,
whichever of the two wins. So a record that was merged from a report has nothing to learn from it
any more, and merging it once more changes nothing.

Main definitions:
* `EnvRecord.Detail`, `EnvRecord.Detail.read` — the parts of a record that may be missing;
* `EnvRecord.Absorbs` — a record that has nothing to learn from another.

Main results:
* `EnvRecord.merge_eq_left_iff` — merging changes nothing if and only if there is nothing to learn;
* `EnvRecord.absorbs_of_mem` — a merged record has nothing to learn from its reports;
* `EnvRecord.exists_mem_of_picks` — what each merge takes from one of two reports comes from one of
  all;
* `EnvRecord.merged_record_sums_up_reports` — **every part of a merged record comes from its
  reports**;
* `EnvRecord.merge_of_mem_again` — **a report that comes again changes nothing**.
-/

namespace EnvDiscovery

attribute [ext] Executable Distro EnvRecord

/-- The better of two versions is one of them, and of neither more is known. -/
theorem Version.moreComplete_spec (a b : Version) :
    (a.moreComplete b = a ∨ a.moreComplete b = b) ∧
    a.completeness ≤ (a.moreComplete b).completeness ∧
      b.completeness ≤ (a.moreComplete b).completeness := by
  unfold moreComplete
  split
  · exact ⟨.inr rfl, by omega, le_rfl⟩
  · exact ⟨.inl rfl, le_rfl, by omega⟩

namespace EnvRecord

/-! ### Details -/

/-- The parts of a record that may be missing. -/
inductive Detail where
  | name
  | location
  | searchLocation
  | sysPrefix
  | ctime
  | mtime
  | arch
  | org
  | displayName
deriving DecidableEq

namespace Detail

/-- What a detail is, if it is there. -/
def Value : Detail → Type
  | name | org | displayName => String
  | location | searchLocation | sysPrefix => Path
  | ctime | mtime => Timestamp
  | arch => Architecture

/-- A detail of a record. The empty name and the unknown architecture are no details. -/
def read : (f : Detail) → EnvRecord → Option f.Value
  | name, e => if e.name.isEmpty then none else some e.name
  | location, e => e.location
  | searchLocation, e => e.searchLocation
  | sysPrefix, e => e.executable.sysPrefix
  | ctime, e => e.executable.ctime
  | mtime, e => e.executable.mtime
  | arch, e => if e.arch = .unknown then none else some e.arch
  | org, e => e.distro.org
  | displayName, e => e.distro.defaultDisplayName

/-- A missing detail is filled in. -/
@[simp] theorem read_fill (f : Detail) (winner other : EnvRecord) :
    f.read (fill winner other) = (f.read winner <|> f.read other) := by
  cases f with
  | name =>
      by_cases h : winner.name.isEmpty = true
      · simp [read, fill, h]
      · simp [read, fill, h]
        rfl
  | arch =>
      by_cases h : winner.arch = .unknown
      · simp [read, fill, h]
      · simp [read, fill, h]
        rfl
  | location | searchLocation | sysPrefix | ctime | mtime | org | displayName => rfl

/-- A detail of a merged record is that of one of the two reports. -/
theorem read_merge (f : Detail) (a b : EnvRecord) :
    f.read (a.merge b) = f.read a ∨ f.read (a.merge b) = f.read b := by
  rcases merge_cases a b with ⟨-, h⟩ | ⟨-, h⟩
  · rw [h, read_fill]
    cases f.read b <;> simp
  · rw [h, read_fill]
    cases f.read a <;> simp

/-- A detail is missing after a merge only if it was missing in both reports. -/
theorem read_merge_eq_none (f : Detail) (a b : EnvRecord) :
    f.read (a.merge b) = none ↔ f.read a = none ∧ f.read b = none := by
  rcases merge_cases a b with ⟨-, h⟩ | ⟨-, h⟩
  · simp [h, and_comm]
  · simp [h]

end Detail

@[simp] theorem fill_version (winner other : EnvRecord) :
    (fill winner other).version = winner.version.moreComplete other.version := rfl

theorem name_eq_of_read {a b : EnvRecord} (h : Detail.name.read a = Detail.name.read b) :
    a.name = b.name := by
  have hsplit : (if a.name.isEmpty then none else some a.name) = if b.name.isEmpty then none
      else some b.name := h
  split at hsplit <;> split at hsplit <;> simp_all

theorem arch_eq_of_read {a b : EnvRecord} (h : Detail.arch.read a = Detail.arch.read b) :
    a.arch = b.arch := by
  have hsplit : (if a.arch = .unknown then none else some a.arch) = if b.arch = .unknown then none
      else some b.arch := h
  split at hsplit <;> split at hsplit <;> simp_all

/-- A record is its kind, its executable, its version, its sources and its details. -/
theorem eq_of_details {a b : EnvRecord} (hkind : a.kind = b.kind) (hpath : a.path = b.path)
    (hversion : a.version = b.version) (hsources : a.sources = b.sources)
    (hdetails : ∀ f : Detail, f.read a = f.read b) :
    a = b := by
  have hname := name_eq_of_read (hdetails .name)
  have harch := arch_eq_of_read (hdetails .arch)
  have hlocation : a.location = b.location := hdetails .location
  have hsearch : a.searchLocation = b.searchLocation := hdetails .searchLocation
  have hexecutable : a.executable = b.executable :=
    Executable.ext hpath (hdetails .sysPrefix) (hdetails .ctime) (hdetails .mtime)
  have hdistro : a.distro = b.distro := Distro.ext (hdetails .org) (hdetails .displayName)
  exact EnvRecord.ext hname hlocation hkind hexecutable hversion harch hdistro hsearch hsources

/-! ### Nothing to learn -/

/-- `r` has nothing to learn from `e`: it names its sources, is at least as specific, knows at least
as much of the version, and misses no detail that `e` has. -/
structure Absorbs (r e : EnvRecord) : Prop where
  covers : r.Covers e
  version : e.version.completeness ≤ r.version.completeness
  detail : ∀ f : Detail, f.read r = none → f.read e = none

theorem Absorbs.refl (e : EnvRecord) : e.Absorbs e := ⟨.refl e, le_rfl, fun _ h => h⟩

/-- The version of a merged record is that of one of the reports, and of the other no more is
known. -/
theorem merge_version (a b : EnvRecord) :
    ((a.merge b).version = a.version ∨ (a.merge b).version = b.version) ∧
      a.version.completeness ≤ (a.merge b).version.completeness ∧
      b.version.completeness ≤ (a.merge b).version.completeness := by
  rcases merge_cases a b with ⟨-, h⟩ | ⟨-, h⟩
  · rw [h, fill_version]
    have hkeeps := b.version.moreComplete_spec a.version
    exact ⟨hkeeps.1.symm, hkeeps.2.2, hkeeps.2.1⟩
  · rw [h, fill_version]
    exact a.version.moreComplete_spec b.version

theorem Absorbs.merge_left {r e : EnvRecord} (h : r.Absorbs e) (b : EnvRecord) :
    (r.merge b).Absorbs e where
  covers := h.covers.merge_left b
  version := h.version.trans (merge_version r b).2.1
  detail f hf := h.detail f ((f.read_merge_eq_none r b).1 hf).1

theorem absorbs_merge_right (r e : EnvRecord) : (r.merge e).Absorbs e where
  covers := covers_merge_right r e
  version := (merge_version r e).2.2
  detail f hf := ((f.read_merge_eq_none r e).1 hf).2

/-- **Merging changes nothing if and only if there is nothing to learn.** -/
theorem merge_eq_left_iff {r e : EnvRecord} : r.merge e = r ↔ r.Absorbs e := by
  constructor
  · intro h
    have habsorbs := absorbs_merge_right r e
    rwa [h] at habsorbs
  · intro h
    -- the record that is there wins, also on a tie, and keeps all it has
    have hwins : r.merge e = fill r e := if_neg (by have := h.covers.2; omega)
    rw [hwins]
    refine eq_of_details rfl rfl ?_ ?_ ?_
    · rw [fill_version, Version.moreComplete, if_neg (by have := h.version; omega)]
    · refine SourceSet.eq_of_contains fun x => ?_
      rw [fill_sources, SourceSet.contains_union]
      cases hx : e.sources.contains x with
      | false => rw [Bool.or_false]
      | true => rw [h.covers.1 x hx, Bool.true_or]
    · intro f
      rw [Detail.read_fill]
      cases hr : f.read r with
      | none => rw [h.detail f hr]; rfl
      | some v => rfl

/-- A merged record has nothing to learn from its reports. -/
theorem absorbs_of_mem {d e : EnvRecord} {rest : List EnvRecord} (h : e ∈ d :: rest) :
    (rest.foldl merge d).Absorbs e := by
  -- a report is absorbed when its turn comes, and what is absorbed stays so
  have hkept : ∀ (rest : List EnvRecord) (r : EnvRecord), r.Absorbs e →
      (rest.foldl merge r).Absorbs e := by
    intro rest
    induction rest with
    | nil => exact fun r hr => hr
    | cons b rest ih => exact fun r hr => ih (r.merge b) (hr.merge_left b)
  induction rest generalizing d with
  | nil =>
      obtain rfl : e = d := by simpa using h
      exact .refl e
  | cons b rest ih =>
      rcases List.mem_cons.1 h with rfl | h
      · exact hkept rest _ ((Absorbs.refl e).merge_left b)
      · rcases List.mem_cons.1 h with rfl | h
        · exact hkept rest _ (absorbs_merge_right d e)
        · exact ih (List.mem_cons_of_mem _ h)

/-! ### The sum of the reports -/

/-- What each merge takes from one of two reports, the merged record takes from one of all
reports. -/
theorem exists_mem_of_picks {α : Type} {g : EnvRecord → α}
    (hpicks : ∀ a b : EnvRecord, g (a.merge b) = g a ∨ g (a.merge b) = g b) (d : EnvRecord)
    (rest : List EnvRecord) :
    ∃ e ∈ d :: rest, g (rest.foldl merge d) = g e := by
  have hmerged : mergeAll (d :: rest) = some (rest.foldl merge d) := rfl
  refine mergeAll_induction (P := fun r => ∃ e ∈ d :: rest, g r = g e) ?_ ?_ hmerged
  · rintro a b ⟨e, he, ha⟩ ⟨e', he', hb⟩
    rcases hpicks a b with h | h
    · exact ⟨e, he, h.trans ha⟩
    · exact ⟨e', he', h.trans hb⟩
  · exact fun e he => ⟨e, he, rfl⟩

theorem read_foldl_eq_none (f : Detail) (d : EnvRecord) (rest : List EnvRecord) :
    f.read (rest.foldl merge d) = none ↔ ∀ e ∈ d :: rest, f.read e = none := by
  constructor
  · exact fun h e he => (absorbs_of_mem he).detail f h
  · intro h
    obtain ⟨e, he, hread⟩ := exists_mem_of_picks f.read_merge d rest
    rw [hread, h e he]

/-- **Every part of a merged record comes from its reports.** Whatever the reports of an environment
and whatever their order: the record that is merged from them has the kind and the executable of the
first of the most specific reports; its sources are those of all reports; its version is that of a
report of which no other knows more; and a detail is missing only if every report misses it, and is
otherwise that of one of them. -/
theorem merged_record_sums_up_reports (d : EnvRecord) (rest : List EnvRecord) :
    let es := d :: rest
    let r := rest.foldl merge d
    (∃ first, Leads es first ∧ r.kind = first.kind ∧
      r.executable.filename = first.executable.filename) ∧
      (∀ x, r.sources.contains x = true ↔ ∃ e ∈ es, e.sources.contains x = true) ∧
      (∃ e ∈ es, r.version = e.version ∧ ∀ e' ∈ es,
        e'.version.completeness ≤ e.version.completeness) ∧
      ∀ f : Detail, (f.read r = none ↔ ∀ e ∈ es, f.read e = none) ∧
        ∃ e ∈ es, f.read r = f.read e := by
  intro es r
  have hmerged : mergeAll es = some r := rfl
  refine ⟨?_, ?_, ?_, ?_⟩
  · obtain ⟨first, hleads, hr⟩ := exists_leads_of_mergeAll hmerged
    exact ⟨first, hleads, hr.kind, hr.path⟩
  · intro x
    rw [mergeAll_sources_contains hmerged, List.any_eq_true]
  · obtain ⟨e, he, hversion⟩ := exists_mem_of_picks (fun a b => (merge_version a b).1) d rest
    refine ⟨e, he, hversion, fun e' he' => ?_⟩
    rw [← hversion]
    exact (absorbs_of_mem he').version
  · exact fun f => ⟨read_foldl_eq_none f d rest, exists_mem_of_picks f.read_merge d rest⟩

/-- **A report that comes again changes nothing.** Whatever was merged, in whatever order, and
wherever the report stood: merging it once more gives the record as it is. -/
theorem merge_of_mem_again (d : EnvRecord) (rest : List EnvRecord) (e : EnvRecord)
    (h : e ∈ d :: rest) :
    (rest.foldl merge d).merge e = rest.foldl merge d :=
  merge_eq_left_iff.2 (absorbs_of_mem h)

/-- A report that lost a tie to an earlier one and was then completed into a more specific one. -/
theorem merge_of_mem_again_tie :
    let known := (new ⟨"/e/bin/python"⟩ .system).withSource .knownPath
    let onPath :=
      { (new ⟨"/e/./bin/python"⟩ .otherGlobal).withSource .pathEnvVar with
        name := "e"
        arch := .x64 }
    let conda := { (new ⟨"/e/bin/python3"⟩ .conda).withSource .conda with location := some ⟨"/e"⟩ }
    let r := [onPath, conda].foldl merge known
    onPath ∈ [known, onPath, conda] ∧ r.kind = .conda ∧ r.merge onPath = r := by
  intro known onPath conda r
  have hmem : onPath ∈ [known, onPath, conda] := List.mem_cons_of_mem _ List.mem_cons_self
  exact ⟨hmem, rfl, merge_of_mem_again known [onPath, conda] onPath hmem⟩

end EnvRecord

end EnvDiscovery
