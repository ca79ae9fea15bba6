import EnvDiscovery.Locator.Basic
import EnvDiscovery.Proofs.Entries
import EnvDiscovery.Proofs.Places

/-!
**Sources recognise what they list.**

A source goes from directories to executables when it lists, and from an executable back to a
directory when it is asked about one. The sources that search folders find their way back to the
directory they started from, in whatever spelling it was given, and make the same record again.

The source of conda lists the homes that conda reports. On the way back it has no report: it finds
the same home, and takes it for the base installation if a file there says so.

Main definitions:
* `FileSystem.ListsEntries` — directories list their entries below their own path;
* `Surroundings.FoundIn` — a record about an interpreter of a folder in a directory;
* `Locator.searchesFolders` — the sources that search folders;
* `Conda.hasBaseMarker`, `Conda.label` — what tells the base installation, and what a home is
  called.

Main results:
* `Surroundings.recordsIn_spec`, `FileSystem.homeOf?_findInterpreter` — the way back from an
  interpreter to its folder;
* `Locator.listed_records_are_recognised` — **every listed record is recognised as it is**;
* `Conda.listed_records_resolve_by_markers` — **what becomes of the environments that conda
  reports**;
* `Conda.environment_with_conda_resolves_to_base` — an environment that is taken for the base
  installation.
-/

namespace EnvDiscovery

/-! ### The way back to a directory -/

/-- Every directory lists its entries as its own path with a name after it. -/
def FileSystem.ListsEntries (fs : FileSystem) : Prop :=
  ∀ dir, ∀ p ∈ fs.listDir dir, ∃ name, Path.IsEntryName name ∧ p = dir / name

theorem Path.any_samePlace_trimmed {dirs : List Path} {dir : Path} (h : dir ∈ dirs) :
    dirs.any (·.samePlace dir.trimmed) = true := by
  rw [any_samePlace, key_trimmed]
  exact List.mem_map_of_mem h

/-- The known directories are distinct places, so that the directories of programs are too. -/
theorem KnownPaths.dirs_eq_distinct (extra : List Path) :
    dirs extra = Path.distinct (knownDirs ++ extra) := by
  have hknown : Path.distinct knownDirs = knownDirs := by decide +kernel
  rw [Path.distinct_append, hknown, dirs]

/-- An interpreter that is found in a home is a file, and belongs to that home. -/
theorem FileSystem.homeOf?_findInterpreter {fs : FileSystem} {home executable : Path}
    (h : fs.findInterpreter home = some executable) :
    fs.isFile executable = true ∧ executable.homeOf? = some home.trimmed := by
  refine ⟨List.find?_some h, ?_⟩
  have hmem : executable ∈ home.interpreterCandidates := List.mem_of_find?_eq_some h
  simp only [Path.interpreterCandidates, List.mem_cons, List.not_mem_nil, or_false] at hmem
  rcases hmem with rfl | rfl
  · exact home.homeOf?_scripts (by decide)
  · exact home.homeOf?_scripts (by decide)

section Folders

variable {s : Surroundings} {r : EnvRecord} {dir home : Path}

namespace Surroundings

/-- The record `r` is about an interpreter of the folder `home`, which is an entry of `dir`. -/
structure FoundIn (s : Surroundings) (dir home : Path) (r : EnvRecord) : Prop where
  owner : r.path.homeOf? = some home
  parent : home.parent? = some dir.trimmed
  isFile : s.fs.isFile r.path = true

/-- A record of a directory that is searched passes the test of the way back. -/
theorem FoundIn.accepted (h : s.FoundIn dir home r) {dirs : List Path} (hdir : dir ∈ dirs) :
    (dirs.any (·.samePlace dir.trimmed) && s.fs.isFile r.path) = true := by
  rw [Path.any_samePlace_trimmed hdir, h.isFile]
  rfl

/-- The records of a directory are about interpreters of its folders. -/
theorem recordsIn_spec (hs : s.fs.ListsEntries) {fallback : EnvKind} {source : EnvSource}
    {place : Option Path} (hr : r ∈ s.recordsIn dir fallback source place) :
    ∃ home, s.FoundIn dir home r ∧
      r = { s.recordOfHome home r.path fallback source with searchLocation := place } := by
  obtain ⟨home, hhome, hrecord⟩ := List.mem_filterMap.1 hr
  obtain ⟨name, hname, rfl⟩ := hs dir home hhome
  obtain ⟨-, hrecord⟩ := Option.ite_none_right_eq_some.1 hrecord
  obtain ⟨executable, hfound, rfl⟩ := Option.map_eq_some_iff.1 hrecord
  obtain ⟨hfile, howner⟩ := FileSystem.homeOf?_findInterpreter hfound
  rw [Path.trimmed_div dir hname] at howner
  exact ⟨dir / name, ⟨howner, Path.parent?_div dir hname, hfile⟩, rfl⟩

theorem globalRecord_path (s : Surroundings) (executable : Path) (known : List Path)
    (source : EnvSource) :
    (s.globalRecord executable known source).path = executable := by
  unfold globalRecord
  dsimp only
  split <;> rfl

/-- An interpreter of a directory of programs is recognised. -/
theorem resolveGlobal_of_mem (hs : s.fs.ListsEntries) {dirs known : List Path} {source : EnvSource}
    (hr : r ∈ s.globalRecords dirs known source) :
    s.resolveGlobal dirs known source r.path = some r := by
  obtain ⟨dir, hdir, hr⟩ := List.mem_flatMap.1 hr
  obtain ⟨executable, hexecutable, rfl⟩ := List.mem_map.1 hr
  obtain ⟨hlisted, hpython⟩ := List.mem_filter.1 hexecutable
  obtain ⟨name, hname, rfl⟩ := hs dir executable hlisted
  rw [globalRecord_path, resolveGlobal, Path.parent?_div dir hname]
  dsimp only [Option.bind_eq_bind, Option.bind_some]
  rw [Path.any_samePlace_trimmed hdir, Bool.and_true, if_pos hpython]

end Surroundings

theorem GlobalVirtualEnvs.resolve_of_mem_list (hs : s.fs.ListsEntries) {extra : List Path}
    (hr : r ∈ list s extra) :
    resolve s extra r.path = some r := by
  obtain ⟨dir, hdir, hr⟩ := List.mem_flatMap.1 hr
  obtain ⟨home, hfound, hrecord⟩ := Surroundings.recordsIn_spec hs hr
  rw [resolve, hfound.owner]
  dsimp only [Option.bind_eq_bind, Option.bind_some]
  rw [hfound.parent]
  dsimp only [Option.bind_some]
  rw [if_pos (hfound.accepted hdir)]
  exact congrArg some hrecord.symm

theorem RootVirtualEnvs.resolve_of_mem_list (hs : s.fs.ListsEntries) {root : Path}
    (hr : r ∈ list s root) :
    resolve s root r.path = some r := by
  obtain ⟨dir, hdir, hr⟩ := List.mem_flatMap.1 hr
  obtain ⟨home, hfound, hrecord⟩ := Surroundings.recordsIn_spec hs hr
  rw [resolve, hfound.owner]
  dsimp only [Option.bind_eq_bind, Option.bind_some]
  rw [hfound.parent]
  dsimp only [Option.bind_some]
  rw [if_pos (hfound.accepted hdir), ← hrecord]

namespace Pyenv

theorem findInterpreter_of_recordOf (h : recordOf s home = some r) :
    s.fs.findInterpreter home = some r.path := by
  rw [recordOf] at h
  obtain ⟨executable, hfound, h⟩ := Option.bind_eq_some_iff.1 h
  obtain ⟨name, -, h⟩ := Option.bind_eq_some_iff.1 h
  rw [hfound, ← Option.some.inj h]
  rfl

/-- The record of an installation is made again from its home, and only its executable is put
back. -/
theorem resolve_of_mem_list (hs : s.fs.ListsEntries) (hr : r ∈ list s) :
    resolve s r.path = some r := by
  cases hdir : versionsDir s.host with
  | none => simp [list, hdir] at hr
  | some dir =>
      simp only [list, hdir] at hr
      obtain ⟨home, hhome, hrecord⟩ := List.mem_filterMap.1 hr
      obtain ⟨name, hname, rfl⟩ := hs dir home hhome
      obtain ⟨-, howner⟩ := FileSystem.homeOf?_findInterpreter (findInterpreter_of_recordOf hrecord)
      rw [Path.trimmed_div dir hname] at howner
      have hplace : dir.trimmed.samePlace dir = true := Path.samePlace_iff.2 dir.key_trimmed
      rw [resolve, hdir]
      dsimp only [Option.bind_eq_bind, Option.bind_some]
      rw [howner]
      dsimp only [Option.bind_some]
      rw [Path.parent?_div dir hname]
      dsimp only [Option.bind_some]
      rw [if_pos hplace, hrecord]
      rfl

end Pyenv

end Folders

/-! ### Sources that search folders -/

namespace Locator

/-- Whether a source searches folders: those of the user, of pyenv, of programs or of a workspace
root. -/
def searchesFolders : Locator → Bool
  | globalVirtualEnvs _ | pyenv | knownPaths _ | searchPath | rootVirtualEnvs _ => true
  | conda _ | registry _ | fixed _ => false

/-- **Every listed record is recognised as it is.** Whatever the files, the surroundings of the user
and the folders that a source searches, in whatever spelling: of the executable of a record that it
lists the source makes the very same record. -/
theorem listed_records_are_recognised (m : Machine) (hfs : m.fs.ListsEntries) (l : Locator)
    (hl : l.searchesFolders = true) :
    ∀ r ∈ (l.list m).value.records, l.resolve m.toSurroundings r.path = some r := by
  intro r hr
  cases l with
  | globalVirtualEnvs extra => exact GlobalVirtualEnvs.resolve_of_mem_list hfs hr
  | pyenv => exact Pyenv.resolve_of_mem_list hfs hr
  | knownPaths extra => exact Surroundings.resolveGlobal_of_mem hfs hr
  | searchPath => exact Surroundings.resolveGlobal_of_mem hfs hr
  | rootVirtualEnvs root => exact RootVirtualEnvs.resolve_of_mem_list hfs hr
  | conda | registry | fixed => cases hl

/-- A file system where the directory `/envs` has one environment, and any spelling of a path will
do. -/
def oneEnv : FileSystem where
  present _ := false
  lstat _ := none
  stat p :=
    if p.key = "/envs/a" then some ⟨0, none, none, true, false⟩
    else if p.key = "/envs/a/bin/python3" then some ⟨0, none, none, false, false⟩
    else none
  listDir p := if p.key = "/envs" then [p / "a"] else if p.key = "/envs/a/bin" then [p / "python3"]
    else []
  readLink _ := none
  realPath _ := none
  readText _ := none

theorem listsEntries_oneEnv : oneEnv.ListsEntries := by
  intro dir p hp
  simp only [oneEnv] at hp
  split at hp
  · exact ⟨"a", by decide, List.mem_singleton.1 hp⟩
  · split at hp
    · exact ⟨"python3", by decide, List.mem_singleton.1 hp⟩
    · cases hp

/-- An environment in a folder and an interpreter in a directory of programs, both spelled with
detours. -/
theorem listed_records_are_recognised_respelled :
    let m : Machine :=
      ⟨⟨oneEnv, ⟨none, []⟩⟩, ⟨fun _ => .error (.commandNotFound "" none)⟩, fun _ => none,
        defaultTimeout⟩
    let folders : Locator := .globalVirtualEnvs [⟨"/x/../envs/./"⟩]
    let programs : Locator := .knownPaths [⟨"/envs//a/bin/."⟩]
    let env :=
      { m.recordOfHome ⟨"/x/../envs/./a"⟩ ⟨"/x/../envs/./a/bin/python3"⟩ .virtualEnv
        .globalVirtualEnv with
      searchLocation := none }
    let python := m.globalRecord ⟨"/envs//a/bin/./python3"⟩ (KnownPaths.dirs [⟨"/envs//a/bin/."⟩])
      .knownPath
    m.fs.ListsEntries ∧
      (folders.searchesFolders = true ∧ env ∈ (folders.list m).value.records ∧
        folders.resolve m.toSurroundings env.path = some env) ∧
      (programs.searchesFolders = true ∧ python ∈ (programs.list m).value.records ∧
        programs.resolve m.toSurroundings python.path = some python) := by
  intro m folders programs env python
  have hfound : m.recordOfFolder .virtualEnv .globalVirtualEnv none ⟨"/x/../envs/./a"⟩ =
      some env := by
    rw [Surroundings.recordOfFolder, if_pos (by decide +kernel),
      show m.fs.findInterpreter ⟨"/x/../envs/./a"⟩ =
        some ⟨"/x/../envs/./a/bin/python3"⟩ by decide +kernel]
    rfl
  have henv : env ∈ (folders.list m).value.records :=
    List.mem_flatMap.2 ⟨⟨"/x/../envs/./"⟩, by decide +kernel,
      List.mem_filterMap.2 ⟨_, by decide +kernel, hfound⟩⟩
  have hpython : python ∈ (programs.list m).value.records :=
    List.mem_flatMap.2 ⟨⟨"/envs//a/bin/."⟩, by decide +kernel,
      List.mem_map_of_mem (by decide +kernel)⟩
  refine ⟨listsEntries_oneEnv, ⟨rfl, henv, ?_⟩, rfl, hpython, ?_⟩
  · exact listed_records_are_recognised m listsEntries_oneEnv folders rfl env henv
  · exact listed_records_are_recognised m listsEntries_oneEnv programs rfl python hpython

end Locator

/-! ### Environments that conda reports -/

namespace Conda

variable {s : Surroundings} {home : Path}

/-- Whether a home has a file that only a base installation has. -/
def hasBaseMarker (fs : FileSystem) (home : Path) : Bool :=
  (Classify.baseMarkers home).any fs.present

/-- The kind and the name of a home, if it is the base installation and if not. -/
def label (isBase : Bool) (home : Path) : EnvKind × String :=
  if isBase then (.condaBase, baseName) else (.conda, home.environmentName)

/-- The base installation is told by its kind. -/
theorem label_inj {a b : Bool} : label a home = label b home ↔ a = b := by
  cases a <;> cases b <;> simp [label]

theorem label_trimmed (isBase : Bool) (home : Path) :
    label isBase home.trimmed = label isBase home := by
  rw [label, label, Path.environmentName, Path.environmentName, Path.fileName?_trimmed]

theorem label_recordOf (s : Surroundings) (base : Option Path) (home : Path) :
    ((recordOf s base home).kind, (recordOf s base home).name) =
      label (base.any (·.samePlace home)) home := by
  cases h : base.any (·.samePlace home) <;> simp [recordOf, label, h, EnvRecord.new]

theorem homeOf?_condaInterpreterIn (home : Path) :
    home.condaInterpreterIn.homeOf? = some home.trimmed :=
  home.homeOf?_scripts (by decide)

theorem conda_condaInterpreterIn (hmeta : s.fs.isDir (home.trimmed / "conda-meta") = true) :
    Classify.conda s.fs (.ofExecutable home.condaInterpreterIn) =
      some (if hasBaseMarker s.fs home.trimmed then .condaBase else .conda) := by
  rw [Classify.conda, Candidate.ofExecutable, homeOf?_condaInterpreterIn]
  dsimp only [Option.bind_eq_bind, Option.bind_some]
  rw [hmeta, hasBaseMarker]
  cases (Classify.baseMarkers home.trimmed).any s.fs.present <;> rfl

theorem resolve_of_kind {executable : Path} {kind : EnvKind}
    (hkind : Classify.conda s.fs (.ofExecutable executable) = some kind)
    (hhome : executable.homeOf? = some home) :
    ∃ e, resolve s executable = some e ∧ e.location = some home ∧
      (e.kind, e.name) = label (decide (kind = .condaBase)) home := by
  rw [resolve, hkind]
  dsimp only [Option.bind_eq_bind, Option.bind_some]
  rw [hhome]
  dsimp only [Option.bind_some]
  generalize hbase : (if kind = .condaBase then some home else none) = base
  have hisBase : base.any (·.samePlace home) = decide (kind = .condaBase) := by
    subst hbase
    split <;> simp_all [Path.samePlace]
  have hlabel := label_recordOf s base home
  have hlocation : (recordOf s base home).location = some home := rfl
  rw [hisBase] at hlabel
  -- putting another executable back changes neither label nor location, whatever the record is
  generalize recordOf s base home = e at hlabel hlocation ⊢
  exact ⟨_, rfl, hlocation, hlabel⟩

/-- The way back from the interpreter of a home with package records: the same home, labelled by its
files. -/
theorem resolve_condaInterpreterIn (hmeta : s.fs.isDir (home.trimmed / "conda-meta") = true) :
    ∃ e, resolve s home.condaInterpreterIn = some e ∧ e.location = some home.trimmed ∧
      (e.kind, e.name) = label (hasBaseMarker s.fs home.trimmed) home := by
  obtain ⟨e, hresolve, hlocation, hlabel⟩ :=
    resolve_of_kind (conda_condaInterpreterIn hmeta) (homeOf?_condaInterpreterIn home)
  rw [label_trimmed] at hlabel
  refine ⟨e, hresolve, hlocation, hlabel.trans (congrArg (label · home) ?_)⟩
  cases hasBaseMarker s.fs home.trimmed <;> rfl

/-- The listed records are those of the homes which conda reports. -/
theorem list_records (m : Machine) (configured : Option Path) :
    (list m configured).value.1 = (list m configured).value.2.elim []
    (records m.toSurroundings) := by
  rw [list]
  simp only [bind, Traced.bind]
  cases (info m configured).value <;> rfl

theorem mem_list_of_report {m : Machine} {configured : Option Path} {i : CondaInfo}
    (hi : (list m configured).value.2 = some i) (hhome : home ∈ i.homes) :
    recordOf m.toSurroundings i.base home ∈ (list m configured).value.1 := by
  rw [list_records, hi]
  exact List.mem_map_of_mem hhome

theorem exists_home_of_mem_list {m : Machine} {configured : Option Path} {r : EnvRecord}
    (h : r ∈ (list m configured).value.1) :
    ∃ i home, (list m configured).value.2 = some i ∧ home ∈ i.homes ∧
    r = recordOf m.toSurroundings i.base home := by
  rw [list_records] at h
  cases hi : (list m configured).value.2 with
  | none => rw [hi] at h; cases h
  | some i =>
      rw [hi] at h
      obtain ⟨home, hhome, hr⟩ := List.mem_map.1 h
      exact ⟨i, home, rfl, hhome, hr.symm⟩

/-- **What becomes of the environments that conda reports.** Whatever conda reports and whatever the
files are: a listed record is that of a reported home, labelled by the report. If the home has a
folder of package records, then the source gives a record of its executable, with the same
components for its location; that record is labelled by the files of the home. So its kind and its
name are those that were listed if and only if the home has a file of a base installation just when
conda reports it as the base. -/
theorem listed_records_resolve_by_markers (m : Machine) (configured : Option Path) :
    ∀ r ∈ (list m configured).value.1, ∃ i home,
      (list m configured).value.2 = some i ∧ home ∈ i.homes ∧ r.location = some home ∧
      (r.kind, r.name) = label (i.base.any (·.samePlace home)) home ∧
      (m.fs.isDir (home.trimmed / "conda-meta") = true →
        ∃ e, resolve m.toSurroundings r.path = some e ∧
          (e.location = some home.trimmed ∧ home.trimmed.sameComponents home = true) ∧
          (e.kind, e.name) = label (hasBaseMarker m.fs home.trimmed) home ∧
          ((e.kind, e.name) = (r.kind, r.name) ↔
            hasBaseMarker m.fs home.trimmed = i.base.any (·.samePlace home))) := by
  intro r hr
  obtain ⟨i, home, hi, hhome, rfl⟩ := exists_home_of_mem_list hr
  have hlisted := label_recordOf m.toSurroundings i.base home
  refine ⟨i, home, hi, hhome, rfl, hlisted, fun hmeta => ?_⟩
  obtain ⟨e, hresolve, hlocation, hlabel⟩ := resolve_condaInterpreterIn hmeta
  refine ⟨e, hresolve, ⟨hlocation, ?_⟩, hlabel, ?_⟩
  · rw [Path.sameComponents, home.components_trimmed, beq_self_eq_true]
  · rw [hlabel, hlisted, label_inj]

/-- A machine with a base installation of conda and an environment below it, which conda spells with
a dot at the end. The environment has the given scripts. -/
def oneEnvironment (scripts : List String) : Machine :=
  let dirs := ["/opt/conda/conda-meta", "/opt/conda/envs/tools/conda-meta"]
  let files := "/opt/conda/bin/conda" :: scripts.map ("/opt/conda/envs/tools/bin/" ++ ·)
  let report := "\x7b\"root_prefix\":\"/opt/conda\",\"envs\":[\"/opt/conda/envs/tools/.\"]\x7d"
  ⟨⟨{ present := fun p => p.key ∈ dirs ++ files
      lstat := fun _ => none
      stat := fun p =>
        if p.key ∈ dirs then some ⟨0, none, none, true, false⟩
        else if p.key ∈ files then some ⟨0, none, none, false, false⟩
        else none
      listDir := fun _ => []
      readLink := fun _ => none
      realPath := fun _ => none
      readText := fun _ => none }, ⟨none, []⟩⟩,
    ⟨fun _ => .ok ⟨some 0, Text.bytes report, []⟩⟩, fun _ => none, defaultTimeout⟩

/-- An environment without a program `conda` of its own keeps its kind and its name, though conda
spells its home with a dot at the end. -/
theorem listed_records_resolve_by_markers_plain :
    let m := oneEnvironment ["python"]
    let conda : Path := ⟨"/opt/conda/bin/conda"⟩
    let home : Path := ⟨"/opt/conda/envs/tools/."⟩
    let i : CondaInfo := ⟨[home], none, some ⟨"/opt/conda"⟩, [], none⟩
    let r := recordOf m.toSurroundings i.base home
    (r ∈ (list m (some conda)).value.1 ∧ m.fs.isDir (home.trimmed / "conda-meta") = true) ∧
      ∃ e, resolve m.toSurroundings r.path = some e ∧ e.location = some ⟨"/opt/conda/envs/tools"⟩ ∧
        (e.kind, e.name) = (r.kind, r.name) := by
  intro m conda home i r
  have hreport : (list m (some conda)).value.2 = some i := by decide +kernel
  have hhome : home ∈ i.homes := by decide +kernel
  have hr : r ∈ (list m (some conda)).value.1 := mem_list_of_report hreport hhome
  have hmeta : m.fs.isDir (home.trimmed / "conda-meta") = true := by decide +kernel
  have htrimmed : home.trimmed = ⟨"/opt/conda/envs/tools"⟩ := by decide +kernel
  have hbase : hasBaseMarker m.fs home.trimmed = i.base.any (·.samePlace home) := by decide +kernel
  obtain ⟨i', home', hi, -, hlocation, -, h⟩ :=
    listed_records_resolve_by_markers m (some conda) r hr
  obtain rfl : home = home' := Option.some.inj hlocation
  obtain rfl : i = i' := Option.some.inj (hreport.symm.trans hi)
  obtain ⟨e, hresolve, ⟨hsame, -⟩, -, hlabel⟩ := h hmeta
  exact ⟨⟨hr, hmeta⟩, e, hresolve, htrimmed ▸ hsame, hlabel.2 hbase⟩

/-- An environment with a program `conda` of its own is listed under its name, and taken for the
base installation when its interpreter is resolved. -/
theorem environment_with_conda_resolves_to_base :
    let m := oneEnvironment ["python", "conda"]
    let conda : Path := ⟨"/opt/conda/bin/conda"⟩
    let home : Path := ⟨"/opt/conda/envs/tools/."⟩
    let i : CondaInfo := ⟨[home], none, some ⟨"/opt/conda"⟩, [], none⟩
    let r := recordOf m.toSurroundings i.base home
    r ∈ (list m (some conda)).value.1 ∧ r.location = some home ∧
      m.fs.isDir (home / "conda-meta") = true ∧ (r.kind, r.name) = (.conda, "tools") ∧
      (resolve m.toSurroundings r.path).map (fun e => (e.kind, e.name)) =
        some (.condaBase, "base") := by
  intro m conda home i r
  have hreport : (list m (some conda)).value.2 = some i := by decide +kernel
  have hhome : home ∈ i.homes := by decide +kernel
  exact ⟨mem_list_of_report hreport hhome, rfl, by decide +kernel⟩

end Conda

end EnvDiscovery
