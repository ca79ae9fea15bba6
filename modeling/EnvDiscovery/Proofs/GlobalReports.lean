import EnvDiscovery.Proofs.MergedDetails
import EnvDiscovery.Proofs.Recognised
import EnvDiscovery.Proofs.Spellings

/-!
**Two reports of one interpreter.**

The directories where systems keep their programs are often on the search path too, so that two
sources report one interpreter, perhaps in two spellings. Name, location and version come from its
path and the files around it, and do not depend on the source. The kind of an interpreter that
belongs to no environment does: the search of known directories knows the extra ones it was given,
and the search path knows the usual ones alone. The two kinds have the same rank, and the report
that comes first decides.

Main definitions:
* `FileSystem.IgnoresSpelling` — files are found below every spelling of their directory;
* `Surroundings.SameInterpreter` — two paths name one interpreter;
* `EnvRecord.Concur` — records that say the same, apart from the kind;
* `Surroundings.Disputed` — interpreters about whose kind the sources differ.

Main results:
* `Classify.Alike.identify_eq` — the kind that files tell does not depend on the spelling;
* `Surroundings.globalRecord_eq` — which directories are known decides about the kind only;
* `Surroundings.sources_differ_about_extra_dirs` — **the sources differ about extra directories
  only**;
* `Surroundings.extra_dir_on_search_path` — an interpreter about which they differ.
-/

namespace EnvDiscovery

/-! ### Files in other spellings -/

/-- What lies below two spellings of one directory is the same for the file system. -/
structure FileSystem.IgnoresSpelling (fs : FileSystem) : Prop where
  present {p q : Path} (h : p.components = q.components) (x : String) :
    fs.present (p / x) = fs.present (q / x)
  stat {p q : Path} (h : p.components = q.components) (x : String) :
    fs.stat (p / x) = fs.stat (q / x)
  readText {p q : Path} (h : p.components = q.components) (x : String) :
    fs.readText (p / x) = fs.readText (q / x)
  listDir {p q : Path} (h : p.components = q.components) (x : String) :
    (fs.listDir (p / x)).map Path.fileName? = (fs.listDir (q / x)).map Path.fileName?

namespace Classify

variable {fs : FileSystem} {c c' : Candidate}

/-- The same interpreter and the same home, up to spelling. -/
structure Alike (c c' : Candidate) : Prop where
  executable : c.executable.components = c'.executable.components
  home : c.home.map Path.components = c'.home.map Path.components

theorem alike_ofExecutable {p q : Path} (h : p.components = q.components) :
    Alike (.ofExecutable p) (.ofExecutable q) :=
  ⟨h, Path.map_components_homeOf?_congr h⟩

/-- What is asked of the home alone is the same if it is the same for two spellings of a home. -/
theorem Alike.bind_home (h : Alike c c') {g g' : Path → Option EnvKind}
    (hg : ∀ home home' : Path, home.components = home'.components → g home = g' home') :
    c.home.bind g = c'.home.bind g' := by
  rcases Path.map_components_cases h.home with ⟨hc, hc'⟩ | ⟨home, home', hc, hc', hhome⟩
  · rw [hc, hc']
    rfl
  · rw [hc, hc']
    exact hg home home' hhome

namespace Alike

theorem conda_eq (h : Alike c c') (hfs : fs.IgnoresSpelling) : conda fs c = conda fs c' := by
  refine h.bind_home fun home home' hhome => ?_
  have hmeta : fs.isDir (home / "conda-meta") = fs.isDir (home' / "conda-meta") := by
    rw [FileSystem.isDir, FileSystem.isDir, hfs.stat hhome]
  have hmarkers : (baseMarkers home).any fs.present = (baseMarkers home').any fs.present := by
    simp only [baseMarkers, List.any_cons, List.any_nil, hfs.present hhome,
      hfs.present (Path.components_div_congr hhome _)]
  rw [hmeta, hmarkers]

theorem windowsStore_eq (h : Alike c c') : windowsStore c = windowsStore c' := by
  rw [windowsStore, windowsStore, Path.key_eq_of_components h.executable]

theorem pipenv_eq (h : Alike c c') (hfs : fs.IgnoresSpelling) (host : Host) :
    pipenv fs host c = pipenv fs host c' := by
  refine h.bind_home fun home home' hhome => ?_
  generalize (host.var "PIPENV_PIPFILE").getD "Pipfile" = pipfile
  have hproject : hasPipenvProject fs home pipfile = hasPipenvProject fs home' pipfile := by
    rw [hasPipenvProject, hasPipenvProject, hfs.readText hhome]
  have hbeside : isBesidePipfile fs home pipfile = isBesidePipfile fs home' pipfile := by
    rw [isBesidePipfile, isBesidePipfile, Path.fileName?_congr hhome]
    rcases Path.map_components_cases (Path.map_components_parent?_congr hhome) with
      ⟨hp, hp'⟩ | ⟨project, project', hp, hp', hproject⟩
    · rw [hp, hp']
    · rw [hp, hp', Option.any_some, Option.any_some, hfs.present hproject]
  simp only [hproject, hbeside]

theorem pyenv_eq (h : Alike c c') (host : Host) : pyenv host c = pyenv host c' := by
  simp only [pyenv, Path.within_congr_left h.executable]

theorem venv_eq (h : Alike c c') (hfs : fs.IgnoresSpelling) : venv fs c = venv fs c' := by
  refine h.bind_home fun home home' hhome => ?_
  rw [hfs.present hhome]

theorem virtualEnv_eq (h : Alike c c') (hfs : fs.IgnoresSpelling) :
    virtualEnv fs c = virtualEnv fs c' := by
  refine h.bind_home fun home home' hhome => ?_
  have hnames := congrArg (List.any · (·.any isActivateName)) (hfs.listDir hhome Path.scriptsDir)
  simp only [List.any_map, Function.comp_def] at hnames
  rw [hnames]

theorem virtualEnvWrapper_eq (h : Alike c c') (hfs : fs.IgnoresSpelling) (host : Host) :
    virtualEnvWrapper fs host c = virtualEnvWrapper fs host c' := by
  refine h.bind_home fun home home' hhome => ?_
  simp only [Path.within_congr_left hhome, h.virtualEnv_eq hfs]

/-- The kind that files tell does not depend on the spelling. -/
theorem identify_eq (h : Alike c c') (hfs : fs.IgnoresSpelling) (host : Host) :
    identify fs host c = identify fs host c' := by
  rw [identify, identify, claims, claims, h.conda_eq hfs, h.windowsStore_eq, h.pipenv_eq hfs,
    h.pyenv_eq, h.venv_eq hfs, h.virtualEnvWrapper_eq hfs, h.virtualEnv_eq hfs]

end Alike

end Classify

/-! ### Records of interpreters -/

/-- Two records say the same of an environment, whatever its kind and however its paths are
spelled. -/
structure EnvRecord.Concur (a b : EnvRecord) : Prop where
  name : a.name = b.name
  location : a.location.map Path.components = b.location.map Path.components
  version : a.version = b.version

theorem EnvRecord.Concur.fill {a b : EnvRecord} (h : a.Concur b) :
    (a.fill b).Concur (b.fill a) where
  name := by simp [EnvRecord.fill, h.name]
  location := by
    have hlocation := h.location
    cases ha : a.location <;> cases hb : b.location <;> simp_all [EnvRecord.fill]
  version := by rw [fill_version, fill_version, h.version]

namespace Surroundings

variable {s : Surroundings} {p q : Path}

/-- The home of an interpreter that belongs to a virtual environment. -/
def virtualHome (s : Surroundings) (executable : Path) : Option Path :=
  if (Classify.identify s.fs s.host (.ofExecutable executable)).any (·.isVirtual) then
    executable.homeOf?
  else none

theorem isVirtual_globalKind (executable : Path) (known : List Path) :
    (globalKind executable known).isVirtual = false := by
  unfold globalKind
  split <;> rfl

/-- The record of an interpreter of a given kind. -/
def recordOfKind (s : Surroundings) (executable : Path) (source : EnvSource) (kind : EnvKind) :
    EnvRecord :=
  { EnvRecord.new executable kind with
    name := (s.virtualHome executable).elim "" Path.environmentName
    location := s.virtualHome executable
    version := Version.ofExecutable executable
    sources := .ofList [source] }

/-- Which directories are known decides about the kind of a record only. -/
theorem globalRecord_eq (s : Surroundings) (executable : Path) (known : List Path)
    (source : EnvSource) :
    s.globalRecord executable known source = s.recordOfKind executable source
      ((Classify.identify s.fs s.host (.ofExecutable executable)).getD
        (globalKind executable known)) := by
  have hhome : (Candidate.ofExecutable executable).home = executable.homeOf? := rfl
  unfold globalRecord recordOfKind virtualHome
  dsimp only
  rw [hhome]
  cases Classify.identify s.fs s.host (.ofExecutable executable) with
  | none =>
      rw [Option.getD_none, isVirtual_globalKind]
      rfl
  | some kind =>
      rw [Option.getD_some, Option.any_some]
      cases kind.isVirtual with
      | false => rfl
      | true => cases executable.homeOf? <;> rfl

/-! ### Two spellings of one interpreter -/

/-- The paths `p` and `q` name one interpreter: they are written alike, or have the same components
on a file system that ignores spelling. -/
structure SameInterpreter (s : Surroundings) (p q : Path) : Prop where
  components : p.components = q.components
  spelling : p = q ∨ s.fs.IgnoresSpelling

theorem SameInterpreter.identify_eq (h : s.SameInterpreter p q) :
    Classify.identify s.fs s.host (.ofExecutable p) =
      Classify.identify s.fs s.host (.ofExecutable q) := by
  rcases h.spelling with rfl | hfs
  · rfl
  · exact (Classify.alike_ofExecutable h.components).identify_eq hfs s.host

theorem SameInterpreter.virtualHome_eq (h : s.SameInterpreter p q) :
    (s.virtualHome p).map Path.components = (s.virtualHome q).map Path.components := by
  rw [virtualHome, virtualHome, h.identify_eq]
  split
  · exact Path.map_components_homeOf?_congr h.components
  · rfl

/-- Whatever their kinds and whichever sources report: two records of one interpreter concur. -/
theorem SameInterpreter.concur (h : s.SameInterpreter p q) (source source' : EnvSource)
    (kind kind' : EnvKind) :
    (s.recordOfKind p source kind).Concur (s.recordOfKind q source' kind') := by
  unfold recordOfKind
  refine ⟨?_, ?_, ?_⟩
  · dsimp only
    rcases Path.map_components_cases h.virtualHome_eq with ⟨hp, hq⟩ | ⟨home, home', hp, hq, hhome⟩
    · rw [hp, hq]
    · rw [hp, hq, Option.elim_some, Option.elim_some, Path.environmentName, Path.environmentName,
        Path.fileName?_congr hhome]
  · dsimp only
    exact h.virtualHome_eq
  · dsimp only
    rw [Version.ofExecutable, Version.ofExecutable, Path.fileName?_congr h.components]

theorem read_recordOfKind (f : EnvRecord.Detail) (s : Surroundings) (executable : Path)
    (source source' : EnvSource) (kind kind' : EnvKind) :
    f.read (s.recordOfKind executable source kind) =
      f.read (s.recordOfKind executable source' kind') := by
  cases f <;> rfl

/-! ### Which directories are known -/

/-- Whether an executable lies in one of some directories. -/
def liesIn (dirs : List Path) (executable : Path) : Bool :=
  executable.parent?.any fun dir => dirs.any (·.samePlace dir)

theorem globalKind_eq (executable : Path) (known : List Path) :
    globalKind executable known = if liesIn known executable then .system else .otherGlobal := rfl

theorem liesIn_congr (h : p.components = q.components) (dirs : List Path) :
    liesIn dirs p = liesIn dirs q := by
  rw [liesIn, liesIn]
  rcases Path.map_components_cases (Path.map_components_parent?_congr h) with
    ⟨hp, hq⟩ | ⟨dir, dir', hp, hq, hdir⟩
  · rw [hp, hq]
  · rw [hp, hq, Option.any_some, Option.any_some]
    exact congrArg dirs.any (funext (Path.samePlace_right (Path.key_eq_of_components hdir)))

theorem liesIn_knownPaths (extra : List Path) (executable : Path) :
    liesIn (KnownPaths.dirs extra) executable =
      (liesIn knownDirs executable || liesIn extra executable) := by
  rw [liesIn, liesIn, liesIn]
  cases executable.parent? with
  | none => rfl
  | some dir =>
      rw [Option.any_some, Option.any_some, Option.any_some, Bool.eq_iff_iff, Bool.or_eq_true,
        Path.any_samePlace, Path.any_samePlace, Path.any_samePlace, KnownPaths.dirs_eq_distinct,
        Path.key_mem_distinct, List.map_append, List.mem_append]

/-- The sources take an interpreter for different kinds: it belongs to no environment, and lies in a
directory that is searched as an extra one and is none of those where systems keep their
programs. -/
def Disputed (s : Surroundings) (extra : List Path) (executable : Path) : Prop :=
  Classify.identify s.fs s.host (.ofExecutable executable) = none ∧ liesIn extra executable = true ∧
    liesIn knownDirs executable = false

instance (s : Surroundings) (extra : List Path) (executable : Path) :
    Decidable (s.Disputed extra executable) :=
  inferInstanceAs (Decidable (_ ∧ _ ∧ _))

theorem globalRecord_kind (s : Surroundings) (executable : Path) (known : List Path)
    (source : EnvSource) :
    (s.globalRecord executable known source).kind =
      (Classify.identify s.fs s.host (.ofExecutable executable)).getD
        (globalKind executable known) := by
  rw [globalRecord_eq, recordOfKind]
  rfl

/-- The kinds in the two sources: of a disputed interpreter one of the system for one and another
for the other, and otherwise the same. -/
theorem SameInterpreter.kinds (h : s.SameInterpreter p q) (extra : List Path)
    (source source' : EnvSource) :
    (s.Disputed extra p ∧ (s.globalRecord p (KnownPaths.dirs extra) source).kind = .system ∧
        (s.globalRecord q knownDirs source').kind = .otherGlobal) ∨
      (¬s.Disputed extra p ∧
        (s.globalRecord p (KnownPaths.dirs extra) source).kind =
          (s.globalRecord q knownDirs source').kind) := by
  rw [globalRecord_kind, globalRecord_kind, ← h.identify_eq, globalKind_eq, globalKind_eq,
    liesIn_knownPaths, ← liesIn_congr h.components, Disputed]
  cases Classify.identify s.fs s.host (.ofExecutable p) with
  | some kind => exact .inr ⟨by simp, rfl⟩
  | none =>
      cases liesIn knownDirs p with
      | true => exact .inr ⟨by simp, rfl⟩
      | false =>
          cases liesIn extra p with
          | true => exact .inl ⟨by simp, rfl, rfl⟩
          | false => exact .inr ⟨by simp, rfl⟩

end Surroundings

/-! ### The two sources -/

theorem Surroundings.eq_globalRecord_of_mem {s : Surroundings} {dirs known : List Path}
    {source : EnvSource} {r : EnvRecord} (h : r ∈ s.globalRecords dirs known source) :
    r = s.globalRecord r.path known source := by
  obtain ⟨dir, -, hr⟩ := List.mem_flatMap.1 h
  obtain ⟨executable, -, rfl⟩ := List.mem_map.1 hr
  rw [globalRecord_path]

/-- Reports of equal rank are completed from each other, and the first one wins. -/
theorem EnvRecord.merge_of_tie {a b : EnvRecord} (h : a.kind.specificity = b.kind.specificity) :
    a.merge b = a.fill b :=
  if_neg (by omega)

/-- **The sources differ about extra directories only.** Whatever the files, the variables and the
extra directories are: if the search of known directories and the search path report one
interpreter, their records have the same name, location and version. The kinds are the same too,
unless the interpreter belongs to no environment and lies in a directory that is known as an extra
one only; then it is one of the system for the first and another for the second. Merging the two in
either order gives the same name, location, version and sources, and the kind of the first; so the
order makes no difference unless the kind is disputed. -/
theorem Surroundings.sources_differ_about_extra_dirs (s : Surroundings) (extra : List Path)
    (r r' : EnvRecord) (hr : r ∈ KnownPaths.list s extra) (hr' : r' ∈ SearchPath.list s)
    (hsame : s.SameInterpreter r.path r'.path) :
    r.Concur r' ∧
      (s.Disputed extra r.path → r.kind = .system ∧ r'.kind = .otherGlobal) ∧
      (¬s.Disputed extra r.path → r.kind = r'.kind) ∧
      (r.merge r').Concur (r'.merge r) ∧ (r.merge r').sources = (r'.merge r).sources ∧
      (r.merge r').kind = r.kind ∧ (r'.merge r).kind = r'.kind ∧
      (¬s.Disputed extra r.path → r.path = r'.path → r.merge r' = r'.merge r) := by
  have hrecord := eq_globalRecord_of_mem hr
  have hrecord' := eq_globalRecord_of_mem hr'
  have hconcur : r.Concur r' := by
    rw [hrecord, hrecord', globalRecord_eq, globalRecord_eq]
    exact hsame.concur _ _ _ _
  have hkinds := hsame.kinds extra .knownPath .pathEnvVar
  rw [← hrecord, ← hrecord'] at hkinds
  have htie : r.kind.specificity = r'.kind.specificity := by
    rcases hkinds with ⟨-, h, h'⟩ | ⟨-, h⟩
    · rw [h, h']
      rfl
    · rw [h]
  have hsources : (r.fill r').sources = (r'.fill r).sources := by
    refine SourceSet.eq_of_contains fun x => ?_
    rw [EnvRecord.fill_sources, EnvRecord.fill_sources, SourceSet.contains_union,
      SourceSet.contains_union, Bool.or_comm]
  rw [EnvRecord.merge_of_tie htie, EnvRecord.merge_of_tie htie.symm]
  refine ⟨hconcur, ?_, ?_, hconcur.fill, hsources, rfl, rfl, ?_⟩
  · intro hdisputed
    rcases hkinds with ⟨-, h⟩ | ⟨h, -⟩
    · exact h
    · exact absurd hdisputed h
  · intro hagreed
    rcases hkinds with ⟨h, -⟩ | ⟨-, h⟩
    · exact absurd h hagreed
    · exact h
  · intro hagreed hpath
    have hkind : r.kind = r'.kind := (hkinds.resolve_left fun h => hagreed h.1).2
    refine EnvRecord.eq_of_details hkind hpath hconcur.fill.version hsources fun f => ?_
    have hread : f.read r = f.read r' := by
      rw [hrecord, hrecord', globalRecord_eq, globalRecord_eq, hpath]
      exact read_recordOfKind f s r'.path _ _ _ _
    rw [EnvRecord.Detail.read_fill, EnvRecord.Detail.read_fill, hread]

/-- A file system with one interpreter, in the directory of a given key. -/
def onePython (dir : String) : FileSystem where
  present p := p.key = dir ++ "/python3"
  lstat _ := none
  stat p := if p.key = dir ++ "/python3" then some ⟨0, none, none, false, false⟩ else none
  listDir p := if p.key = dir then [p / "python3"] else []
  readLink _ := none
  realPath _ := none
  readText _ := none

theorem ignoresSpelling_onePython (dir : String) : (onePython dir).IgnoresSpelling := by
  have hkey : ∀ {p q : Path}, p.components = q.components →
      ∀ x : String, (p / x).key = (q / x).key :=
    fun h x => Path.key_eq_of_components (Path.components_div_congr h x)
  constructor
  · intro p q h x
    simp only [onePython, hkey h]
  · intro p q h x
    simp only [onePython, hkey h]
  · intro p q h x
    rfl
  · intro p q h x
    simp only [onePython, hkey h]
    split
    · rw [List.map_singleton, List.map_singleton, Path.fileName?_div _ (by decide),
        Path.fileName?_div _ (by decide)]
    · rfl

/-- An interpreter of the system that the search path spells with slashes and dots. -/
theorem Surroundings.sources_differ_about_extra_dirs_respelled :
    let s : Surroundings := ⟨onePython "/usr/bin", ⟨none, [("PATH", "/usr//bin/.")]⟩⟩
    let r := s.globalRecord ⟨"/usr/bin/python3"⟩ (KnownPaths.dirs []) .knownPath
    let r' := s.globalRecord ⟨"/usr//bin/./python3"⟩ knownDirs .pathEnvVar
    (r ∈ KnownPaths.list s [] ∧ r' ∈ SearchPath.list s ∧ s.SameInterpreter r.path r'.path ∧
        ¬s.Disputed [] r.path) ∧
      r.Concur r' ∧ r.kind = r'.kind ∧ (r.merge r').Concur (r'.merge r) := by
  intro s r r'
  have hr : r ∈ KnownPaths.list s [] :=
    List.mem_flatMap.2 ⟨⟨"/usr/bin"⟩, by decide +kernel, List.mem_map_of_mem (by decide +kernel)⟩
  have hr' : r' ∈ SearchPath.list s :=
    List.mem_flatMap.2 ⟨⟨"/usr//bin/."⟩, by decide +kernel, List.mem_map_of_mem (by decide +kernel)⟩
  have hsame : s.SameInterpreter r.path r'.path := by
    refine ⟨?_, .inr (ignoresSpelling_onePython _)⟩
    rw [globalRecord_path, globalRecord_path]
    decide +kernel
  have hagreed : ¬s.Disputed [] r.path := by
    rw [globalRecord_path]
    decide +kernel
  obtain ⟨hconcur, -, hkind, hmerged, -⟩ := sources_differ_about_extra_dirs s [] r r' hr hr' hsame
  exact ⟨⟨hr, hr', hsame, hagreed⟩, hconcur, hkind hagreed, hmerged⟩

/-- An interpreter in an extra directory that is on the search path too: it is one of the system for
one source and not for the other, and the merged record takes the kind of the source that comes
first. -/
theorem Surroundings.extra_dir_on_search_path :
    let s : Surroundings := ⟨onePython "/opt/tools", ⟨none, [("PATH", "/opt/tools")]⟩⟩
    let extra : List Path := [⟨"/opt/tools"⟩]
    let r := s.globalRecord ⟨"/opt/tools/python3"⟩ (KnownPaths.dirs extra) .knownPath
    let r' := s.globalRecord ⟨"/opt/tools/python3"⟩ knownDirs .pathEnvVar
    (r ∈ KnownPaths.list s extra ∧ r' ∈ SearchPath.list s ∧ r.path = r'.path) ∧
      (r.kind, r'.kind) = (.system, .otherGlobal) ∧
      ((r.merge r').kind, (r'.merge r).kind) = (.system, .otherGlobal) := by
  intro s extra r r'
  have hr : r ∈ KnownPaths.list s extra :=
    List.mem_flatMap.2 ⟨⟨"/opt/tools"⟩, by decide +kernel, List.mem_map_of_mem (by decide +kernel)⟩
  have hr' : r' ∈ SearchPath.list s :=
    List.mem_flatMap.2 ⟨⟨"/opt/tools"⟩, by decide +kernel, List.mem_map_of_mem (by decide +kernel)⟩
  have hkind : r.kind = .system := by decide +kernel
  have hkind' : r'.kind = .otherGlobal := by decide +kernel
  have htie : r.kind.specificity = r'.kind.specificity := by rw [hkind, hkind']; rfl
  refine ⟨⟨hr, hr', ?_⟩, ?_, ?_⟩
  · rw [globalRecord_path, globalRecord_path]
  · rw [hkind, hkind']
  · rw [EnvRecord.merge_of_tie htie, EnvRecord.merge_of_tie htie.symm, EnvRecord.fill_kind,
      EnvRecord.fill_kind, hkind, hkind']

end EnvDiscovery
