import EnvDiscovery.Config.Load
import Mathlib.Logic.Basic

/-!
**The settings of a process.**

The settings come from the file that is given, from the file of the user, or are the usual ones; two
variables then override two of them. Settings in a file have to be usable by themselves, and the
overridden ones once more, so what is loaded is usable wherever it comes from.

Main definitions:
* `Config.Usable` — times that are positive, and paths that are absolute;
* `Config.Written`, `Config.Chosen` — the settings in a file, and those before the variables.

Main results:
* `Config.validate_eq_ok_iff` — exactly the usable settings are valid;
* `Config.load_eq_ok_iff` — **what is loaded**: the chosen settings after the variables, if these
  are usable;
* `Config.loaded_settings_are_usable` — **loaded settings are usable and follow the variables**.
-/

namespace EnvDiscovery

theorem Path.isAbsolute_join {p : Path} (hp : p.isAbsolute = true) (q : Path) :
    (p.join q).isAbsolute = true := by
  cases hq : q.isAbsolute with
  | true => simp [join, hq]
  | false =>
      -- `p` is not empty, so what is put behind it does not change how it begins
      obtain ⟨text⟩ := p
      rw [isAbsolute, beq_iff_eq, List.head?_eq_some_iff] at hp
      obtain ⟨rest, hrest⟩ := hp
      have hne : text.isEmpty = false := by
        rw [← Bool.not_eq_true, String.isEmpty_iff]
        rintro rfl
        cases hrest
      simp only [join, hq, hne, Bool.or_self, Bool.false_eq_true, if_false]
      split <;> simp [isAbsolute, String.toList_append, hrest]

theorem Host.var_eq_some {h : Host} {name v : String} (hv : h.vars.lookup name = some v)
    (hne : v ≠ "") :
    h.var name = some v := by
  rw [var, hv, Option.filter_some, if_pos]
  simpa using hne

namespace Config

variable {fs : FileSystem} {h : Host} {c c₀ : Config} {file : Path}

/-! ### Usable settings -/

/-- Settings that can be used: times are positive, and paths absolute. -/
structure Usable (c : Config) : Prop where
  timeout : 0 < c.resolveTimeoutSecs
  expiry : 0 < c.cacheExpiryHours
  poll : c.watch.enabled = true → 0 < c.watch.pollIntervalMs
  condaPath : ∀ p, c.condaPath = some p → p.isAbsolute = true
  venvPath : ∀ p, c.venvPath = some p → p.isAbsolute = true
  cacheDir : ∀ p, c.cacheDir = some p → p.isAbsolute = true
  searchPaths : ∀ p ∈ c.searchPaths, p.isAbsolute = true

/-- The paths that have to be absolute are those of four fields. -/
theorem forall_mem_absolutePaths (P : Path → Prop) : (∀ x ∈ c.absolutePaths, P x.2) ↔
    (∀ p, c.condaPath = some p → P p) ∧ (∀ p, c.venvPath = some p → P p) ∧
    (∀ p, c.cacheDir = some p → P p) ∧
      ∀ p ∈ c.searchPaths, P p := by
  simp only [absolutePaths, List.forall_mem_append, List.forall_mem_map,
    Option.mem_toList, and_assoc]

/-- Usable settings are those without a fault. -/
theorem fault?_eq_none_iff : c.fault? = none ↔ c.Usable := by
  have hpaths : c.absolutePaths.find? (!·.2.isAbsolute) = none ↔
      ∀ x ∈ c.absolutePaths, x.2.isAbsolute = true := by
    simp [List.find?_eq_none]
  rw [forall_mem_absolutePaths (·.isAbsolute = true)] at hpaths
  unfold fault?
  constructor
  · intro hfault
    split at hfault
    case isTrue => cases hfault
    case isFalse htimeout =>
      split at hfault
      case isTrue => cases hfault
      case isFalse hexpiry =>
        split at hfault
        case isTrue => cases hfault
        case isFalse hpoll =>
          obtain ⟨hconda, hvenv, hcache, hsearch⟩ := hpaths.1 (Option.map_eq_none_iff.1 hfault)
          refine ⟨UInt64.pos_iff_ne_zero.2 htimeout, UInt64.pos_iff_ne_zero.2 hexpiry,
            fun henabled => ?_, hconda, hvenv, hcache, hsearch⟩
          refine UInt64.pos_iff_ne_zero.2 fun hzero => hpoll ?_
          rw [henabled, Bool.true_and, decide_eq_true hzero]
  · intro husable
    have hpoll : ¬(c.watch.enabled && c.watch.pollIntervalMs = 0) = true := by
      rw [Bool.and_eq_true, decide_eq_true_eq]
      rintro ⟨henabled, hzero⟩
      exact UInt64.pos_iff_ne_zero.1 (husable.poll henabled) hzero
    rw [if_neg (UInt64.pos_iff_ne_zero.1 husable.timeout),
      if_neg (UInt64.pos_iff_ne_zero.1 husable.expiry), if_neg hpoll, Option.map_eq_none_iff]
    exact hpaths.2 ⟨husable.condaPath, husable.venvPath, husable.cacheDir, husable.searchPaths⟩

/-- Exactly the usable settings are valid. -/
theorem validate_eq_ok_iff {c' : Config} {file : Option Path} :
    c.validate file = .ok c' ↔ c' = c ∧ c.Usable := by
  rw [validate, ← fault?_eq_none_iff]
  cases c.fault? with
  | none => simp [eq_comm]
  | some fault => simp

/-! ### Where settings come from -/

/-- The settings in a file: the usual ones if it is blank, else those that it spells, if they are
usable. -/
inductive Written (fs : FileSystem) (file : Path) : Config → Prop where
  | blank {text : String} (hpresent : fs.present file = true) (hread : fs.readText file = some text)
      (hblank : Text.trim text = "") : Written fs file {}
  | spelled {text : String} {c : Config} (hpresent : fs.present file = true)
      (hread : fs.readText file = some text)
      (hcontent : Text.trim text ≠ "")
      (hspelled : (Yaml.Document.parse text).bind ofDocument? = some c)
      (husable : c.Usable) : Written fs file c

/-- The settings before the variables: those of the file that is given, else those of the user's
file if there is one, else the usual ones. -/
inductive Chosen (fs : FileSystem) (h : Host) : Option Path → Config → Prop where
  | given {file : Path} {c : Config} (hwritten : Written fs file c) : Chosen fs h (some file) c
  | user {file : Path} {c : Config} (hpath : defaultPath h = some file)
      (hfile : fs.isFile file = true)
      (hwritten : Written fs file c) : Chosen fs h none c
  | usual (hnone : ∀ file, defaultPath h = some file → fs.isFile file = false) : Chosen fs h none {}

theorem ofYaml_eq_ok_iff {text : String} {file : Option Path} : ofYaml text file = .ok c ↔
    (Text.trim text = "" ∧ c = {}) ∨
      Text.trim text ≠ "" ∧ (Yaml.Document.parse text).bind ofDocument? = some c ∧ c.Usable := by
  rw [ofYaml]
  by_cases hblank : Text.trim text = ""
  · rw [hblank, if_pos (by decide)]
    simp [@eq_comm Config c]
  · have hempty : ¬(Text.trim text).isEmpty = true := by rwa [String.isEmpty_iff]
    rw [if_neg hempty]
    cases (Yaml.Document.parse text).bind ofDocument? with
    | none => simp [hblank]
    | some c' =>
        simp only [validate_eq_ok_iff, hblank, false_and, false_or, ne_eq, not_false_eq_true,
          true_and, Option.some_inj]
        constructor
        · rintro ⟨rfl, husable⟩
          exact ⟨rfl, husable⟩
        · rintro ⟨rfl, husable⟩
          exact ⟨rfl, husable⟩

theorem ofFile_eq_ok_iff : ofFile fs file = .ok c ↔ Written fs file c := by
  rw [ofFile]
  cases hpresent : fs.present file with
  | false =>
      refine iff_of_false (by simp) fun hwritten => ?_
      cases hwritten <;> simp_all
  | true =>
      cases hread : fs.readText file with
      | none =>
          refine iff_of_false (by simp) fun hwritten => ?_
          cases hwritten <;> simp_all
      | some text =>
          simp only [Bool.not_true, Bool.false_eq_true, if_false, ofYaml_eq_ok_iff]
          constructor
          · rintro (⟨hblank, rfl⟩ | ⟨hcontent, hspelled, husable⟩)
            · exact .blank hpresent hread hblank
            · exact .spelled hpresent hread hcontent hspelled husable
          · rintro (⟨-, hread', hblank⟩ | ⟨-, hread', hcontent, hspelled, husable⟩)
            · obtain rfl : text = _ := Option.some.inj (hread.symm.trans hread')
              exact .inl ⟨hblank, rfl⟩
            · obtain rfl : text = _ := Option.some.inj (hread.symm.trans hread')
              exact .inr ⟨hcontent, hspelled, husable⟩

theorem ofFiles_eq_ok_iff {given : Option Path} :
    ofFiles fs h given = .ok c ↔ Chosen fs h given c := by
  cases given with
  | some file =>
      rw [ofFiles, ofFile_eq_ok_iff]
      exact ⟨.given, fun hchosen => by cases hchosen; assumption⟩
  | none =>
      rw [ofFiles]
      cases huser : (defaultPath h).filter fs.isFile with
      | none =>
          have hnone : ∀ file, defaultPath h = some file → fs.isFile file = false := by
            intro file hpath
            simpa [hpath] using huser
          constructor
          · intro hc
            cases hc
            exact .usual hnone
          · intro hchosen
            cases hchosen with
            | user hpath hfile hwritten =>
                rw [hnone _ hpath] at hfile
                cases hfile
            | usual => rfl
      | some file =>
          obtain ⟨hpath, hfile⟩ := Option.filter_eq_some_iff.1 huser
          dsimp only
          rw [ofFile_eq_ok_iff]
          constructor
          · exact .user hpath hfile
          · intro hchosen
            cases hchosen with
            | user hpath' hfile' hwritten =>
                obtain rfl : file = _ := Option.some.inj (hpath.symm.trans hpath')
                exact hwritten
            | usual hnone =>
                rw [hnone file hpath] at hfile
                cases hfile

/-- **What is loaded**: the chosen settings after the variables, if these are usable. -/
theorem load_eq_ok_iff {given : Option Path} :
    load fs h given = .ok c ↔ ∃ c₀, Chosen fs h given c₀ ∧ c = c₀.withVariables h ∧ c.Usable := by
  rw [load]
  cases hfiles : ofFiles fs h given with
  | error f =>
      refine iff_of_false (by simp) ?_
      rintro ⟨c₀, hchosen, -⟩
      rw [ofFiles_eq_ok_iff.2 hchosen] at hfiles
      cases hfiles
  | ok c₁ =>
      dsimp only
      rw [validate_eq_ok_iff]
      constructor
      · rintro ⟨rfl, husable⟩
        exact ⟨c₁, ofFiles_eq_ok_iff.1 hfiles, rfl, husable⟩
      · rintro ⟨c₀, hchosen, rfl, husable⟩
        obtain rfl : c₁ = c₀ := Except.ok.inj (hfiles.symm.trans (ofFiles_eq_ok_iff.2 hchosen))
        exact ⟨rfl, husable⟩

/-! ### Variables and folders -/

/-- A variable that is set overrides the folder of the store, and one the path of conda. -/
theorem withVariables_spec (c : Config) (h : Host) :
    (∀ v, h.var homeVariable = some v → (c.withVariables h).cacheDir = some ⟨v⟩) ∧
      ∀ v, h.var condaVariable = some v → (c.withVariables h).condaPath = some ⟨v⟩ := by
  constructor <;> intro v hv <;> rw [withVariables, hv] <;> rfl

/-- With an absolute home, usable settings name absolute folders of virtual environments. -/
theorem Usable.isAbsolute_of_mem_virtualEnvFolders (husable : c.Usable) {home : Option Path}
    (hhome : ∀ p, home = some p → p.isAbsolute = true) {folder : Path}
    (hfolder : folder ∈ c.virtualEnvFolders home) :
    folder.isAbsolute = true := by
  rw [virtualEnvFolders, List.mem_append, Option.mem_toList, List.mem_filterMap] at hfolder
  rcases hfolder with hvenv | ⟨entry, -, hentry⟩
  · exact husable.venvPath folder hvenv
  · split at hentry
    case isTrue habsolute =>
      obtain rfl : entry = folder := Option.some.inj hentry
      exact habsolute
    case isFalse =>
      obtain ⟨p, hp, rfl⟩ := Option.map_eq_some_iff.1 hentry
      exact Path.isAbsolute_join (hhome p hp) entry

/-- **Loaded settings are usable and follow the variables.** Whatever the files, the variables and
the file that is given: settings are loaded exactly if they are the chosen ones after the variables
and are usable. Then the times are positive and the paths absolute; a variable that is set to
something is the folder of the store, or the path of conda; and with an absolute home all folders of
virtual environments are absolute. -/
theorem loaded_settings_are_usable (fs : FileSystem) (h : Host) (given : Option Path) (c : Config) :
    (load fs h given = .ok c ↔ ∃ c₀, Chosen fs h given c₀ ∧ c = c₀.withVariables h ∧ c.Usable) ∧
      (load fs h given = .ok c →
        c.Usable ∧
        (∀ v, h.vars.lookup homeVariable = some v → v ≠ "" → c.cacheDir = some ⟨v⟩) ∧
        (∀ v, h.vars.lookup condaVariable = some v → v ≠ "" → c.condaPath = some ⟨v⟩) ∧
        ∀ home : Path, home.isAbsolute = true → ∀ folder ∈ c.virtualEnvFolders (some home),
          folder.isAbsolute = true) := by
  refine ⟨load_eq_ok_iff, fun hload => ?_⟩
  obtain ⟨c₀, -, rfl, husable⟩ := load_eq_ok_iff.1 hload
  obtain ⟨hcache, hconda⟩ := withVariables_spec c₀ h
  refine ⟨husable, ?_, ?_, ?_⟩
  · exact fun v hv hne => hcache v (Host.var_eq_some hv hne)
  · exact fun v hv hne => hconda v (Host.var_eq_some hv hne)
  · intro home hhome folder hfolder
    refine husable.isAbsolute_of_mem_virtualEnvFolders ?_ hfolder
    rintro p ⟨⟩
    exact hhome

/-- Files of which only one is there, with some text. -/
def oneFile (file : Path) (text : String) : FileSystem where
  present p := p = file
  lstat _ := none
  stat p := if p = file then some ⟨0, none, none, false, false⟩ else none
  listDir _ := []
  readLink _ := none
  realPath _ := none
  readText p := if p = file then some text else none

/-- The user's file, with one variable that overrides it and one that is empty. -/
theorem loaded_settings_are_usable_user :
    let file : Path := ⟨"/home/u/.config/pyscout/pyscout.yaml"⟩
    let fs := oneFile file "venv_folders: [envs]\ncache_dir: /tmp/x\n"
    let h : Host := ⟨some ⟨"/home/u"⟩, [(homeVariable, "/cache"), (condaVariable, "")]⟩
    let c : Config := { venvFolders := [⟨"envs"⟩], cacheDir := some ⟨"/cache"⟩ }
    load fs h none = .ok c ∧ c.Usable ∧ c.cacheDir = some ⟨"/cache"⟩ ∧
      (⟨"/home/u/envs"⟩ : Path) ∈ c.virtualEnvFolders h.home ∧
        (⟨"/home/u/envs"⟩ : Path).isAbsolute = true := by
  intro file fs h c
  have hload : load fs h none = .ok c := by
    have hwritten : Written fs file { c with cacheDir := some ⟨"/tmp/x"⟩ } :=
      .spelled (by decide) rfl (by decide) (by decide +kernel) (fault?_eq_none_iff.1 (by decide))
    exact load_eq_ok_iff.2 ⟨_, .user (by decide) (by decide) hwritten, by decide,
      fault?_eq_none_iff.1 (by decide)⟩
  have hfolder : (⟨"/home/u/envs"⟩ : Path) ∈ c.virtualEnvFolders h.home := by decide +kernel
  obtain ⟨-, hloaded⟩ := loaded_settings_are_usable fs h none c
  obtain ⟨husable, hcache, -, hfolders⟩ := hloaded hload
  exact ⟨hload, husable, hcache "/cache" (by decide) (by decide), hfolder,
    hfolders ⟨"/home/u"⟩ (by decide) ⟨"/home/u/envs"⟩ hfolder⟩

end Config

end EnvDiscovery
