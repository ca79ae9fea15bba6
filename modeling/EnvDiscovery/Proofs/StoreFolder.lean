import EnvDiscovery.CommandLine.Run
import EnvDiscovery.Proofs.LoadedSettings

/-!
**Where the store is kept.**

The store is looked for in the configured folder, else below the folder for caches that a variable
names, else below the home folder. Settings that were loaded name an absolute folder or none, and a
home folder is absolute; the variable is taken as it is. So the place of the store depends on the
directory of the process exactly if no folder is configured and the variable is relative.

Main definitions:
* `Config.storeFolder` — the folder that is tried first.

Main results:
* `Path.isAbsolute_iff_join_eq` — absolute paths are those that look the same from everywhere;
* `Config.storeFolder_of_loaded` — which folder it is, once settings are loaded;
* `Config.store_folder_depends_on_cache_variable` — **when the folder of the store is absolute**.
-/

namespace EnvDiscovery

namespace Path

variable {p q : Path}

theorem join_of_isAbsolute (hq : q.isAbsolute = true) (p : Path) : p.join q = q := by
  rw [join, hq, Bool.true_or, if_pos rfl]

/-- Putting a relative path behind another keeps how that one begins. -/
theorem isAbsolute_join_of_relative (hq : q.isAbsolute = false) (p : Path) :
    (p.join q).isAbsolute = p.isAbsolute := by
  cases hp : p.isAbsolute with
  | true => exact isAbsolute_join hp q
  | false =>
      obtain ⟨text⟩ := p
      cases htext : text.isEmpty with
      | true => rw [join, htext, Bool.or_true, if_pos rfl, hq]
      | false =>
          have hne : text.toList ≠ [] := by
            rw [← Bool.not_eq_true, String.isEmpty_iff, ← String.toList_eq_nil_iff] at htext
            exact htext
          obtain ⟨c, cs, hcs⟩ := List.exists_cons_of_ne_nil hne
          rw [isAbsolute, hcs, List.head?_cons] at hp
          simp only [join, hq, htext, Bool.or_self, Bool.false_eq_true, if_false]
          split <;> simpa [isAbsolute, String.toList_append, hcs] using hp

/-- A path is absolute if and only if it is the same seen from any two directories. -/
theorem isAbsolute_iff_join_eq :
    p.isAbsolute = true ↔ ∀ here there : Path, here.join p = there.join p := by
  constructor
  · intro hp here there
    rw [join_of_isAbsolute hp, join_of_isAbsolute hp]
  · intro hsame
    cases hp : p.isAbsolute with
    | true => rfl
    | false =>
        -- seen from the root it is absolute, and seen from nowhere it is as it stands
        have hroot := isAbsolute_join_of_relative hp ⟨"/"⟩
        rw [hsame ⟨"/"⟩ ⟨""⟩, isAbsolute_join_of_relative hp] at hroot
        exact absurd hroot (by decide)

end Path

/-- The folder of the user is absolute if the home folder is. -/
theorem Host.isAbsolute_userFolder {h : Host}
    (hhome : ∀ home, h.home = some home → home.isAbsolute = true) {name usual : String}
    {folder : Path} (hfolder : h.userFolder name usual = some folder) :
    folder.isAbsolute = true := by
  rw [userFolder] at hfolder
  cases hvar : ((h.var name).map Path.mk).filter (·.isAbsolute) with
  | some v =>
      rw [hvar] at hfolder
      obtain rfl := Option.some.inj hfolder
      exact (Option.filter_eq_some_iff.1 hvar).2
  | none =>
      rw [hvar] at hfolder
      obtain ⟨home, hsome, rfl⟩ := Option.map_eq_some_iff.1 hfolder
      exact Path.isAbsolute_join (hhome home hsome) ⟨usual⟩

/-- A store on disk is in the folder that was asked for. -/
theorem Disk.directory_openStore (disk : Disk) (folder : Option Path) :
    (disk.openStore folder).2.directory = none ∨ (disk.openStore folder).2.directory = folder := by
  rw [openStore]
  cases folder with
  | none => exact .inl rfl
  | some dir =>
      rw [Option.bind_some, openIn]
      cases withDirectory disk.tree dir with
      | none => exact .inl rfl
      | some tree =>
          cases hplace : databasePlace tree dir with
          | none => exact .inl (by simp [hplace])
          | some place => exact .inr (by simp [hplace])

/-- The folder in which the store is looked for first. -/
def Config.storeFolder (c : Config) (h : Host) : Option Path :=
  c.cacheDir <|> CacheDirectory.default h

theorem Workplace.directory_openStore (w : Workplace) (c : Config) :
    (w.openStore c).2.directory = none ∨ (w.openStore c).2.directory = c.storeFolder w.host :=
  w.disk.directory_openStore (c.storeFolder w.host)

namespace Config

variable {fs : FileSystem} {h : Host} {given : Option Path} {c : Config}

/-- The variable for folders of caches. -/
def cacheVariable : String := "XDG_CACHE_HOME"

/-- Without a folder of its own, the store is below the folder for caches: that of the variable as
it is, else that of the user. -/
theorem default_of_no_home_variable (hvar : h.var homeVariable = none) :
    CacheDirectory.default h =
      ((h.var cacheVariable).map (fun v => (⟨v⟩ : Path) / CacheDirectory.folderName) <|>
        (h.userFolder cacheVariable ".cache").map (· / CacheDirectory.folderName)) := by
  rw [CacheDirectory.default, hvar, cacheVariable]
  cases h.var "XDG_CACHE_HOME" <;> rfl

/-- Once settings are loaded, the variable that names the folder of the store is one of them. -/
theorem storeFolder_of_loaded (hload : load fs h given = .ok c) :
    c.storeFolder h = (c.cacheDir <|>
      (h.var cacheVariable).map (fun v => (⟨v⟩ : Path) / CacheDirectory.folderName) <|>
        (h.userFolder cacheVariable ".cache").map (· / CacheDirectory.folderName)) := by
  obtain ⟨c₀, -, rfl, -⟩ := load_eq_ok_iff.1 hload
  cases hvar : h.var homeVariable with
  | none => rw [storeFolder, default_of_no_home_variable hvar]
  | some v =>
      rw [storeFolder, (withVariables_spec c₀ h).1 v hvar]
      rfl

theorem isAbsolute_folderName : (⟨CacheDirectory.folderName⟩ : Path).isAbsolute = false := by decide

/-- **When the folder of the store is absolute.** Whatever the files, the variables and the file
that is given: with an absolute home folder and settings that can be loaded, the store is looked for
in the configured folder, else below the folder of the variable for caches, else below the user's
folder for caches; and it is kept there or nowhere. That folder is the same seen from every
directory, which is to say that it is absolute, unless no folder is configured and the variable is
set to a relative path. -/
theorem store_folder_depends_on_cache_variable (fs : FileSystem) (h : Host) (given : Option Path)
    (c : Config) (hhome : ∀ home, h.home = some home → home.isAbsolute = true)
    (hload : load fs h given = .ok c) :
    c.storeFolder h = (c.cacheDir <|>
        (h.var cacheVariable).map (fun v => (⟨v⟩ : Path) / CacheDirectory.folderName) <|>
          (h.userFolder cacheVariable ".cache").map (· / CacheDirectory.folderName)) ∧
      (∀ w : Workplace, w.host = h →
        (w.openStore c).2.directory = none ∨ (w.openStore c).2.directory = c.storeFolder h) ∧
      ∀ d, c.storeFolder h = some d →
        (d.isAbsolute = true ↔ ∀ here there : Path, here.join d = there.join d) ∧
        (d.isAbsolute = false ↔
          c.cacheDir = none ∧ ∃ v, h.var cacheVariable = some v ∧
          (⟨v⟩ : Path).isAbsolute = false) := by
  have hfolder := storeFolder_of_loaded hload
  refine ⟨hfolder, ?_, fun d hd => ⟨Path.isAbsolute_iff_join_eq, ?_⟩⟩
  · rintro w rfl
    exact w.directory_openStore c
  · obtain ⟨-, -, -, husable⟩ := load_eq_ok_iff.1 hload
    rw [hfolder] at hd
    cases hcache : c.cacheDir with
    | some folder =>
        rw [hcache] at hd
        obtain rfl : folder = d := Option.some.inj hd
        simp [husable.cacheDir folder hcache]
    | none =>
        rw [hcache] at hd
        cases hvar : h.var cacheVariable with
        | some v =>
            rw [hvar] at hd
            obtain rfl : (⟨v⟩ : Path) / CacheDirectory.folderName = d := Option.some.inj hd
            have hbegins : ((⟨v⟩ : Path) / CacheDirectory.folderName).isAbsolute =
                (⟨v⟩ : Path).isAbsolute :=
              Path.isAbsolute_join_of_relative isAbsolute_folderName ⟨v⟩
            simp [hbegins]
        | none =>
            rw [hvar] at hd
            obtain ⟨user, huser, rfl⟩ := Option.map_eq_some_iff.1 hd
            have habsolute : (user / CacheDirectory.folderName).isAbsolute = true :=
              Path.isAbsolute_join (Host.isAbsolute_userFolder hhome huser)
                ⟨CacheDirectory.folderName⟩
            simp [habsolute]

/-- A configured folder decides, whatever the variable for caches is. -/
theorem store_folder_depends_on_cache_variable_configured :
    let file : Path := ⟨"/home/u/.config/pyscout/pyscout.yaml"⟩
    let fs := oneFile file "cache_dir: /var/store\n"
    let h := Host.ofVariables [("HOME", "/home/u"), (cacheVariable, "caches")]
    let c : Config := { cacheDir := some ⟨"/var/store"⟩ }
    let d : Path := ⟨"/var/store"⟩
    (∀ home, h.home = some home → home.isAbsolute = true) ∧ load fs h none = .ok c ∧
      c.storeFolder h = some d ∧
      ∀ here there : Path, here.join d = there.join d := by
  intro file fs h c d
  have hhome : ∀ home, h.home = some home → home.isAbsolute = true := by
    intro home hsome
    obtain rfl : (⟨"/home/u"⟩ : Path) = home := Option.some.inj hsome
    decide
  have hload : load fs h none = .ok c := by
    have hwritten : Written fs file c :=
      .spelled (by decide) rfl (by decide) (by decide +kernel) (fault?_eq_none_iff.1 (by decide))
    exact load_eq_ok_iff.2 ⟨c, .user (by decide) (by decide) hwritten, by decide,
      fault?_eq_none_iff.1 (by decide)⟩
  obtain ⟨-, -, hfolder⟩ := store_folder_depends_on_cache_variable fs h none c hhome hload
  exact ⟨hhome, hload, rfl, (hfolder d rfl).1.1 (by decide)⟩

/-- Without a configured folder a relative variable puts the store below the directory of the
process. -/
theorem relative_cache_variable_moves_store :
    let file : Path := ⟨"/home/u/.config/pyscout/pyscout.yaml"⟩
    let fs := oneFile file ""
    let h := Host.ofVariables [("HOME", "/home/u"), (cacheVariable, "caches")]
    let d : Path := ⟨"caches/pyscout"⟩
    (h.home = some ⟨"/home/u"⟩ ∧ (⟨"/home/u"⟩ : Path).isAbsolute = true) ∧ load fs h none = .ok {} ∧
      ({} : Config).storeFolder h = some d ∧ d.isAbsolute = false ∧
      (⟨"/a"⟩ : Path).join d = ⟨"/a/caches/pyscout"⟩ ∧
        (⟨"/b"⟩ : Path).join d = ⟨"/b/caches/pyscout"⟩ := by
  intro file fs h d
  have hload : load fs h none = .ok {} := by
    have hwritten : Written fs file {} := .blank (by decide) rfl (by decide)
    exact load_eq_ok_iff.2 ⟨{}, .user (by decide) (by decide) hwritten, by decide,
      fault?_eq_none_iff.1 (by decide)⟩
  exact ⟨⟨rfl, by decide⟩, hload, by decide, by decide, by decide, by decide⟩

end Config

end EnvDiscovery
