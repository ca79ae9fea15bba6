import EnvDiscovery.Proofs.Places
import EnvDiscovery.Proofs.Recognised
import Mathlib.Data.List.Sort

/-!
**The directories that are searched.**

A source collects directories from variables, conventions and settings before it looks into them,
and keeps the first spelling of each place. What is kept is determined by three things: no place is
kept twice, none is lost, and the kept paths are the first ones of their places, in the order in
which these come up.

Main definitions:
* `Path.ComesBefore`, `Path.FirstSpellings` — a list keeps the first spelling of each place of
  another list;
* `Host.pathEntries`, `GlobalVirtualEnvs.candidates` — the directories as they are collected.

Main results:
* `Path.firstSpellings_iff` — exactly one list keeps the first spellings, and `Path.distinct`
  computes it;
* `Conda.records_of_base`, `Conda.records_of_no_base` — the base comes first, and nothing else is
  taken for it;
* `Locator.searched_directories_are_first_spellings` — **the directories of the sources, and the
  base that conda reports**.
-/

namespace EnvDiscovery

namespace Path

variable {p q : Path} {paths kept kept' : List Path}

/-! ### First spellings -/

/-- The place of one path comes up in a list before that of another. -/
def ComesBefore (paths : List Path) (p q : Path) : Prop :=
  paths.findIdx (·.samePlace p) < paths.findIdx (·.samePlace q)

/-- A list keeps the first spelling of each place of `paths`, in the order in which the places come
up. -/
structure FirstSpellings (paths kept : List Path) : Prop where
  apart : kept.Pairwise fun p q => p.samePlace q = false
  covers : ∀ p ∈ paths, ∃ q ∈ kept, q.samePlace p = true
  first : ∀ q ∈ kept, paths.find? (·.samePlace q) = some q
  inOrder : kept.Pairwise (ComesBefore paths)

theorem exists_samePlace_iff : (∃ q ∈ paths, q.samePlace p = true) ↔ p.key ∈ paths.map key := by
  rw [← any_samePlace, List.any_eq_true]

theorem find?_samePlace_of_notMem (h : p.key ∉ paths.map key) :
    paths.find? (·.samePlace p) = none := by
  rw [List.find?_eq_none]
  intro q hq hsame
  exact h (exists_samePlace_iff.1 ⟨q, hq, hsame⟩)

theorem findIdx_samePlace_lt_iff :
    paths.findIdx (·.samePlace p) < paths.length ↔ p.key ∈ paths.map key := by
  rw [List.findIdx_lt_length, exists_samePlace_iff]

/-- Where a place comes up first does not change when a path is put at the end. -/
theorem findIdx_samePlace_append (h : p.key ∈ paths.map key) (later : List Path) :
    (paths ++ later).findIdx (·.samePlace p) = paths.findIdx (·.samePlace p) := by
  rw [List.findIdx_append, if_pos (findIdx_samePlace_lt_iff.2 h)]

theorem key_mem_of_mem_distinct (h : q ∈ distinct paths) : q.key ∈ paths.map key :=
  key_mem_distinct.1 (List.mem_map_of_mem h)

/-- A kept path is the first one of its place. -/
theorem find?_samePlace_of_mem_distinct (h : q ∈ distinct paths) :
    paths.find? (·.samePlace q) = some q := by
  induction paths using List.reverseRecOn with
  | nil => cases h
  | append_singleton paths p ih =>
      rw [List.find?_append]
      by_cases hp : p.key ∈ paths.map key
      · rw [distinct_concat_of_mem hp] at h
        rw [ih h, Option.some_or]
      · rw [distinct_concat_of_notMem hp, List.mem_append, List.mem_singleton] at h
        rcases h with h | rfl
        · rw [ih h, Option.some_or]
        · rw [find?_samePlace_of_notMem hp, Option.none_or, List.find?_singleton,
            if_pos (samePlace_iff.2 rfl)]

/-- The kept paths are in the order in which their places come up. -/
theorem inOrder_distinct (paths : List Path) : (distinct paths).Pairwise (ComesBefore paths) := by
  induction paths using List.reverseRecOn with
  | nil => exact .nil
  | append_singleton paths p ih =>
      -- one more path moves none of the places before it
      have hbefore : (distinct paths).Pairwise (ComesBefore (paths ++ [p])) := by
        refine ih.imp_of_mem ?_
        intro r q hr hq hlt
        rwa [ComesBefore, findIdx_samePlace_append (key_mem_of_mem_distinct hr),
          findIdx_samePlace_append (key_mem_of_mem_distinct hq)]
      by_cases hp : p.key ∈ paths.map key
      · rwa [distinct_concat_of_mem hp]
      · rw [distinct_concat_of_notMem hp, List.pairwise_append]
        refine ⟨hbefore, List.pairwise_singleton _ _, ?_⟩
        intro q hq r hr
        obtain rfl : r = p := List.mem_singleton.1 hr
        have hq := key_mem_of_mem_distinct hq
        have hr : ¬ paths.findIdx (·.samePlace r) < paths.length := by
          rwa [findIdx_samePlace_lt_iff]
        rw [ComesBefore, findIdx_samePlace_append hq, List.findIdx_append, if_neg hr]
        exact Nat.lt_add_left _ (findIdx_samePlace_lt_iff.2 hq)

theorem firstSpellings_distinct (paths : List Path) : FirstSpellings paths (distinct paths) where
  apart := (List.pairwise_map.1 (nodup_keys_distinct paths)).imp samePlace_eq_false_iff.2
  covers _ hp := exists_samePlace_iff.2 (key_mem_distinct.2 (List.mem_map_of_mem hp))
  first _ hq := find?_samePlace_of_mem_distinct hq
  inOrder := inOrder_distinct paths

namespace FirstSpellings

/-- What one list keeps, every other one keeps: the place is in both, in its first spelling. -/
theorem subset (h : FirstSpellings paths kept) (h' : FirstSpellings paths kept') (hq : q ∈ kept) :
    q ∈ kept' := by
  obtain ⟨q', hq', hsame⟩ := h'.covers q (List.mem_of_find?_eq_some (h.first q hq))
  have hkey : q'.key = q.key := samePlace_iff.1 hsame
  have hfirst : some q' = some q := by
    rw [← h'.first q' hq', ← h.first q hq]
    exact congrArg paths.find? (funext fun r => samePlace_right hkey r)
  exact Option.some.inj hfirst ▸ hq'

/-- Only one list keeps the first spellings. -/
theorem unique (h : FirstSpellings paths kept) (h' : FirstSpellings paths kept') :
    kept = kept' := by
  have : Std.Irrefl (ComesBefore paths) := ⟨fun _ => Nat.lt_irrefl _⟩
  have : Std.Antisymm (ComesBefore paths) := ⟨fun _ _ hlt hgt => absurd hgt (Nat.lt_asymm hlt)⟩
  exact List.Pairwise.eq_of_mem_iff h.inOrder h'.inOrder fun _ => ⟨h.subset h', h'.subset h⟩

end FirstSpellings

/-- Exactly one list keeps the first spellings. -/
theorem firstSpellings_iff : FirstSpellings paths kept ↔ kept = distinct paths := by
  constructor
  · exact fun h => h.unique (firstSpellings_distinct paths)
  · rintro rfl
    exact firstSpellings_distinct paths

/-- The first path is kept, as the first one. -/
theorem exists_distinct_cons (p : Path) (paths : List Path) :
    ∃ rest, distinct (p :: paths) = p :: rest := by
  induction paths using List.reverseRecOn with
  | nil => exact ⟨[], rfl⟩
  | append_singleton paths q ih =>
      obtain ⟨rest, hrest⟩ := ih
      rw [← List.cons_append, distinct_concat, hrest]
      split
      · exact ⟨rest, rfl⟩
      · exact ⟨rest ++ [q], rfl⟩

end Path

/-! ### Directories as they are collected -/

/-- The directories of the `PATH` variable as they are written, without the empty ones. -/
def Host.pathEntries (h : Host) : List Path :=
  ((h.var "PATH").toList.flatMap splitPathList).filter (!·.text.isEmpty)

theorem Host.searchPath_eq (h : Host) : h.searchPath = Path.distinct h.pathEntries := by
  rw [searchPath, pathEntries]
  cases h.var "PATH" with
  | none => rfl
  | some s => rw [Option.toList_some, List.flatMap_singleton]

/-- The folders of virtual environments as they are collected: that of a variable, those of the home
folder, and the configured ones. -/
def GlobalVirtualEnvs.candidates (host : Host) (extra : List Path) : List Path :=
  (host.var "WORKON_HOME").toList.map Path.mk ++
    host.home.toList.flatMap (fun h => [h / ".virtualenvs", h / "Envs", h / ".venvs", h / ".direnv",
      h / ".local" / "share" / "virtualenvs"]) ++
    extra

theorem GlobalVirtualEnvs.folders_eq (host : Host) (extra : List Path) :
    folders host extra = Path.distinct (candidates host extra) := by
  rw [folders, candidates]
  cases host.home with
  | none => rfl
  | some h => rw [Option.toList_some, List.flatMap_singleton]

/-! ### The base that conda reports -/

namespace Conda

variable {s : Surroundings} {i : CondaInfo}

theorem kind_recordOf (s : Surroundings) (base : Option Path) (home : Path) :
    (recordOf s base home).kind = if base.any (·.samePlace home) then .condaBase else .conda := rfl

/-- The base comes first, and nothing else is taken for it. -/
theorem records_of_base {base : Path} (hbase : i.base = some base) :
    ∃ e rest, records s i = e :: rest ∧ e.kind = .condaBase ∧ e.location = some base ∧
      ∀ r ∈ rest, r.kind = .conda := by
  obtain ⟨homes, hhomes⟩ := Path.exists_distinct_cons base i.envs
  have happart := (Path.firstSpellings_distinct (base :: i.envs)).apart
  rw [hhomes, List.pairwise_cons] at happart
  have hrecords : records s i = (base :: homes).map (recordOf s (some base)) := by
    rw [records, CondaInfo.homes, hbase, Option.toList_some, List.singleton_append, hhomes]
  refine ⟨recordOf s (some base) base, homes.map (recordOf s (some base)), hrecords, ?_, rfl, ?_⟩
  · rw [kind_recordOf, Option.any_some, if_pos (Path.samePlace_iff.2 rfl)]
  · intro r hr
    obtain ⟨home, hhome, rfl⟩ := List.mem_map.1 hr
    rw [kind_recordOf, Option.any_some, happart.1 home hhome, if_neg Bool.false_ne_true]

/-- Without a base no environment is taken for it. -/
theorem records_of_no_base (hbase : i.base = none) : ∀ r ∈ records s i, r.kind = .conda := by
  intro r hr
  obtain ⟨home, -, rfl⟩ := List.mem_map.1 hr
  rw [kind_recordOf, hbase, Option.any_none, if_neg Bool.false_ne_true]

theorem countP_condaBase_eq_zero {rs : List EnvRecord} (h : ∀ r ∈ rs, r.kind = .conda) :
    rs.countP (·.kind = .condaBase) = 0 := by
  rw [List.countP_eq_zero]
  intro r hr
  simp [h r hr]

/-- At most one environment of a report is the base. -/
theorem countP_condaBase_records_le (s : Surroundings) (i : CondaInfo) :
    (records s i).countP (·.kind = .condaBase) ≤ 1 := by
  cases hbase : i.base with
  | none =>
      rw [countP_condaBase_eq_zero (records_of_no_base hbase)]
      exact Nat.zero_le 1
  | some base =>
      obtain ⟨e, rest, hrecords, -, -, hrest⟩ := records_of_base (s := s) hbase
      rw [hrecords, List.countP_cons, countP_condaBase_eq_zero hrest, Nat.zero_add]
      split
      · exact Nat.le_refl 1
      · exact Nat.zero_le 1

end Conda

namespace Locator

/-- What a listing of conda finds: the environments of its report, and nothing without one. -/
theorem records_list_conda (m : Machine) (program : Option Path) :
    ((conda program).list m).value.records =
      ((conda program).list m).value.report.elim [] (Conda.records m.toSurroundings) :=
  Conda.list_records m program

/-- **The directories of the sources.** Whatever the user's surroundings, the settings and the
report of conda are: the directories of the `PATH` variable, the folders of virtual environments,
the directories of programs and the homes of conda's environments are the first spellings of those
that were collected, each place once and in order. So a listing of conda has at most one base; it
stands first if conda reports one, and without one there is none. -/
theorem searched_directories_are_first_spellings (host : Host) (folders dirs : List Path)
    (i : CondaInfo) (m : Machine) (program : Option Path) :
    Path.FirstSpellings host.pathEntries host.searchPath ∧
      Path.FirstSpellings (GlobalVirtualEnvs.candidates host folders)
      (GlobalVirtualEnvs.folders host folders) ∧
      Path.FirstSpellings (knownDirs ++ dirs) (KnownPaths.dirs dirs) ∧
      Path.FirstSpellings (i.base.toList ++ i.envs) i.homes ∧
      let found := ((conda program).list m).value
      found.records.countP (·.kind = .condaBase) ≤ 1 ∧
        ∀ report, found.report = some report →
          (∀ base, report.base = some base →
            ∃ e rest, found.records = e :: rest ∧ e.kind = .condaBase ∧ e.location = some base) ∧
          (report.base = none → found.records.countP (·.kind = .condaBase) = 0) := by
  refine ⟨?_, ?_, ?_, Path.firstSpellings_distinct _, ?_⟩
  · rw [host.searchPath_eq]
    exact Path.firstSpellings_distinct host.pathEntries
  · rw [GlobalVirtualEnvs.folders_eq]
    exact Path.firstSpellings_distinct _
  · rw [KnownPaths.dirs_eq_distinct]
    exact Path.firstSpellings_distinct _
  · intro found
    have hrecords : found.records = found.report.elim [] (Conda.records m.toSurroundings) :=
      records_list_conda m program
    refine ⟨?_, ?_⟩
    · rw [hrecords]
      cases found.report with
      | none => exact Nat.zero_le 1
      | some report => exact Conda.countP_condaBase_records_le m.toSurroundings report
    · intro report hreport
      rw [hreport, Option.elim_some] at hrecords
      rw [hrecords]
      constructor
      · intro base hbase
        obtain ⟨e, rest, hcons, hkind, hlocation, -⟩ :=
          Conda.records_of_base (s := m.toSurroundings) hbase
        exact ⟨e, rest, hcons, hkind, hlocation⟩
      · exact fun hbase => Conda.countP_condaBase_eq_zero (Conda.records_of_no_base hbase)

/-- Places that are spelled twice, with an empty entry between them, and a base that conda reports
beside another environment. -/
theorem searched_directories_are_first_spellings_respelled :
    let host : Host :=
      ⟨none, [("PATH", "/usr/bin::/usr/./bin:/opt/bin"), ("WORKON_HOME", "/envs/")]⟩
    let i : CondaInfo := ⟨[⟨"/opt/conda/envs/tools/."⟩], none, some ⟨"/opt/conda"⟩, [], none⟩
    let found :=
      ((conda (some ⟨"/opt/conda/bin/conda"⟩)).list (Conda.oneEnvironment ["python"])).value
    (host.pathEntries = [⟨"/usr/bin"⟩, ⟨"/usr/./bin"⟩, ⟨"/opt/bin"⟩] ∧
        Path.FirstSpellings host.pathEntries [⟨"/usr/bin"⟩, ⟨"/opt/bin"⟩]) ∧
      Path.FirstSpellings (GlobalVirtualEnvs.candidates host [⟨"/x"⟩, ⟨"/x/../envs"⟩])
        [⟨"/envs/"⟩, ⟨"/x"⟩] ∧
      Path.FirstSpellings (knownDirs ++ [⟨"/usr/bin/"⟩, ⟨"/x"⟩]) (knownDirs ++ [⟨"/x"⟩]) ∧
      found.report = some i ∧
      ∃ e rest, found.records = e :: rest ∧ e.kind = .condaBase ∧
        e.location = some ⟨"/opt/conda"⟩ := by
  intro host i found
  have hentries : host.pathEntries = [⟨"/usr/bin"⟩, ⟨"/usr/./bin"⟩, ⟨"/opt/bin"⟩] := by
    decide +kernel
  have hsearch : host.searchPath = [⟨"/usr/bin"⟩, ⟨"/opt/bin"⟩] := by decide +kernel
  have hfolders : GlobalVirtualEnvs.folders host [⟨"/x"⟩, ⟨"/x/../envs"⟩] =
      [⟨"/envs/"⟩, ⟨"/x"⟩] := by decide +kernel
  have hdirs : KnownPaths.dirs [⟨"/usr/bin/"⟩, ⟨"/x"⟩] = knownDirs ++ [⟨"/x"⟩] := by decide +kernel
  have hreport : found.report = some i := by decide +kernel
  obtain ⟨hpath, henvs, hknown, -, -, hlisted⟩ := searched_directories_are_first_spellings host
    [⟨"/x"⟩, ⟨"/x/../envs"⟩] [⟨"/usr/bin/"⟩, ⟨"/x"⟩] i (Conda.oneEnvironment ["python"])
    (some ⟨"/opt/conda/bin/conda"⟩)
  rw [hsearch] at hpath
  rw [hfolders] at henvs
  rw [hdirs] at hknown
  exact ⟨⟨hentries, hpath⟩, henvs, hknown, hreport, (hlisted i hreport).1 ⟨"/opt/conda"⟩ rfl⟩

end Locator

end EnvDiscovery
