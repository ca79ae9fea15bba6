import EnvDiscovery.Locator.Scan

/-!
**Hints at a version.**

The files of an environment hint at its version in several places. Of the lines of its configuration
one decides: the first `version`, or the last `version_info` if there is no `version`. Then come the
package records in the order of the listing, and last the name of the executable. The first place
that is read as a version gives the answer, even if the version is unknown, and a deciding line that
cannot be read hides all other lines.

Main definitions:
* `Version.Decides` — the line of a configuration that counts;
* `Surroundings.Hints` — the versions that lines, package records and the name of the executable
  give;
* `Surroundings.Legible` — no hint of the files hides a better one.

Main results:
* `Version.Decides.ofSettings_eq` — a configuration gives the version of its deciding line;
* `Surroundings.hints_versionHint` — an answer that is known is one of the hints;
* `Surroundings.legible_iff_best_hint` — **the answer is unknown only if every hint is, exactly for
  legible files**.
-/

namespace EnvDiscovery

namespace Version

/-! ### The deciding line -/

/-- The settings that the lines of a configuration make. -/
def settingsOf (content : String) : List (String × List Char) :=
  (Text.linesOf content.toList).filterMap setting?

/-- A setting of this key tells a version. -/
def IsVersionKey (key : String) : Prop :=
  key = "version" ∨ key = "version_info"

/-- The text of the setting that counts: the first `version`, or without one the last
`version_info`. -/
inductive Decides : List (String × List Char) → List Char → Prop where
  | version {before after : List (String × List Char)} {value : List Char}
      (hbefore : ∀ x ∈ before, x.1 ≠ "version") :
      Decides (before ++ ("version", value) :: after) value
  | info {before after : List (String × List Char)} {value : List Char}
      (hbefore : ∀ x ∈ before, x.1 ≠ "version")
      (hafter : ∀ x ∈ after, ¬IsVersionKey x.1) : Decides
        (before ++ ("version_info", value) :: after) value

variable {settings : List (String × List Char)} {value : List Char}

/-- Settings without a `version` change at most what is fallen back on. -/
theorem ofSettings_append {before : List (String × List Char)} (h : ∀ x ∈ before, x.1 ≠ "version")
    (rest : List (String × List Char)) (fallback : Option Version) :
    ∃ fallback', ofSettings (before ++ rest) fallback = ofSettings rest fallback' := by
  induction before generalizing fallback with
  | nil => exact ⟨fallback, rfl⟩
  | cons x before ih =>
      obtain ⟨key, value⟩ := x
      have hkey : key ≠ "version" := h _ List.mem_cons_self
      have hbefore : ∀ x ∈ before, x.1 ≠ "version" := fun x hx => h x (List.mem_cons_of_mem _ hx)
      rw [List.cons_append, ofSettings, if_neg hkey]
      split
      · exact ih hbefore _
      · exact ih hbefore _

theorem ofSettings_of_no_key (h : ∀ x ∈ settings, ¬IsVersionKey x.1) (fallback : Option Version) :
    ofSettings settings fallback = fallback := by
  induction settings with
  | nil => rfl
  | cons x settings ih =>
      obtain ⟨key, value⟩ := x
      have hkey : ¬IsVersionKey key := h _ List.mem_cons_self
      rw [ofSettings, if_neg fun heq => hkey (.inl heq), if_neg fun heq => hkey (.inr heq)]
      exact ih fun x hx => h x (List.mem_cons_of_mem _ hx)

/-- **A configuration gives the version of its deciding line**, if that line can be read. -/
theorem Decides.ofSettings_eq (h : Decides settings value) (fallback : Option Version) :
    ofSettings settings fallback = parseChars value := by
  cases h with
  | version hbefore =>
      obtain ⟨fallback', heq⟩ := ofSettings_append hbefore (("version", value) :: _) fallback
      rw [heq, ofSettings, if_pos rfl]
  | info hbefore hafter =>
      obtain ⟨fallback', heq⟩ := ofSettings_append hbefore (("version_info", value) :: _) fallback
      rw [heq, ofSettings, if_neg (by decide), if_pos rfl, ofSettings_of_no_key hafter]

theorem Decides.mem (h : Decides settings value) :
    ∃ key, IsVersionKey key ∧ (key, value) ∈ settings := by
  cases h with
  | version => exact ⟨"version", .inl rfl, by simp⟩
  | info => exact ⟨"version_info", .inr rfl, by simp⟩

theorem Decides.cons (h : Decides settings value) {x : String × List Char} (hx : x.1 ≠ "version") :
    Decides (x :: settings) value := by
  cases h with
  | version hbefore => exact .version (List.forall_mem_cons.2 ⟨hx, hbefore⟩)
  | info hbefore hafter => exact .info (List.forall_mem_cons.2 ⟨hx, hbefore⟩) hafter

theorem exists_decides (settings : List (String × List Char)) :
    (∃ value, Decides settings value) ∨ ∀ x ∈ settings, ¬IsVersionKey x.1 := by
  have hnone : ∀ x ∈ ([] : List (String × List Char)), x.1 ≠ "version" := by simp
  induction settings with
  | nil => exact .inr (by simp)
  | cons x settings ih =>
      obtain ⟨key, value⟩ := x
      by_cases hversion : key = "version"
      · subst hversion
        exact .inl ⟨value, .version hnone⟩
      · rcases ih with ⟨value', hdecides⟩ | hrest
        · exact .inl ⟨value', hdecides.cons hversion⟩
        · by_cases hinfo : key = "version_info"
          · subst hinfo
            exact .inl ⟨value, .info hnone hrest⟩
          · exact .inr (List.forall_mem_cons.2 ⟨not_or.2 ⟨hversion, hinfo⟩, hrest⟩)

end Version

/-! ### Hints -/

namespace Surroundings

open Version (settingsOf IsVersionKey Decides parseChars)

/-- The version in the name of a package record. -/
def recordVersion (entry : Path) : Option Version :=
  entry.fileName?.bind Version.ofPackageRecord

/-- The versions that the files of an environment and the name of its executable give. -/
inductive Hints (s : Surroundings) (home executable : Path) : Version → Prop where
  | setting {content key : String} {value : List Char} {v : Version}
      (hread : s.fs.readText (home / "pyvenv.cfg") = some content)
      (hmem : (key, value) ∈ settingsOf content)
      (hkey : IsVersionKey key) (hv : parseChars value = some v) : Hints s home executable v
  | package {entry : Path} {v : Version} (hentry : entry ∈ s.fs.listDir (home / "conda-meta"))
      (hv : recordVersion entry = some v) : Hints s home executable v
  | executable {name : String} {v : Version} (hname : executable.fileName? = some name)
      (hv : Version.ofExecutableName name = some v) : Hints s home executable v

/-- The version of the deciding line of the configuration. -/
def ConfigHint (s : Surroundings) (home : Path) (v : Version) : Prop :=
  ∃ content value, s.fs.readText (home / "pyvenv.cfg") = some content ∧
    Decides (settingsOf content) value ∧
    parseChars value = some v

/-- The version of the first package record, in the order of the listing. -/
def RecordHint (s : Surroundings) (home : Path) (v : Version) : Prop :=
  ∃ before entry after, s.fs.listDir (home / "conda-meta") = before ++ entry :: after ∧
    recordVersion entry = some v ∧ ∀ e ∈ before, recordVersion e = none

/-- No hint of the files hides a better one. -/
structure Legible (s : Surroundings) (home : Path) : Prop where
  /-- The deciding line has a known version, if it has any. -/
  config {v : Version} (hv : s.ConfigHint home v) : v.isUnknown = false
  /-- The first package record has a known version, if the deciding line has none. -/
  record (hconfig : ∀ v, ¬s.ConfigHint home v) {v : Version}
    (hv : s.RecordHint home v) : v.isUnknown = false
  /-- No other line has a known version, if neither the deciding line nor a package record has
  any. -/
  lines (hconfig : ∀ v, ¬s.ConfigHint home v) (hrecord : ∀ v, ¬s.RecordHint home v)
    {content key : String}
    {value : List Char} {v : Version} (hread : s.fs.readText (home / "pyvenv.cfg") = some content)
    (hmem : (key, value) ∈ settingsOf content) (hkey : IsVersionKey key)
    (hv : parseChars value = some v) :
    v.isUnknown = true

variable {s : Surroundings} {home executable : Path} {v : Version}

theorem configVersion_eq_some_iff : s.configVersion home = some v ↔ s.ConfigHint home v := by
  rw [configVersion, Option.bind_eq_some_iff]
  constructor
  · rintro ⟨content, hread, hv⟩
    rcases Version.exists_decides (settingsOf content) with ⟨value, hdecides⟩ | hnone
    · exact ⟨content, value, hread, hdecides, (hdecides.ofSettings_eq none).symm.trans hv⟩
    · cases (Version.ofSettings_of_no_key hnone none).symm.trans hv
  · rintro ⟨content, value, hread, hdecides, hv⟩
    exact ⟨content, hread, (hdecides.ofSettings_eq none).trans hv⟩

theorem packageVersion_eq_some_iff : s.packageVersion home = some v ↔ s.RecordHint home v :=
  List.findSome?_eq_some_iff

theorem configVersion_eq_none_iff : s.configVersion home = none ↔ ∀ v, ¬s.ConfigHint home v := by
  simp only [← configVersion_eq_some_iff, Option.eq_none_iff_forall_ne_some, ne_eq]

theorem packageVersion_eq_none_iff : s.packageVersion home = none ↔ ∀ v, ¬s.RecordHint home v := by
  simp only [← packageVersion_eq_some_iff, Option.eq_none_iff_forall_ne_some, ne_eq]

theorem ConfigHint.hints (h : s.ConfigHint home v) : s.Hints home executable v := by
  obtain ⟨content, value, hread, hdecides, hv⟩ := h
  obtain ⟨key, hkey, hmem⟩ := hdecides.mem
  exact .setting hread hmem hkey hv

theorem RecordHint.hints (h : s.RecordHint home v) : s.Hints home executable v := by
  obtain ⟨before, entry, after, hlist, hv, -⟩ := h
  exact .package (by simp [hlist]) hv

theorem versionHint_of_config (h : s.ConfigHint home v) : s.versionHint home executable = v := by
  rw [versionHint, configVersion_eq_some_iff.2 h]

theorem versionHint_of_record (hconfig : ∀ v, ¬s.ConfigHint home v) (h : s.RecordHint home v) :
    s.versionHint home executable = v := by
  rw [versionHint, configVersion_eq_none_iff.2 hconfig, packageVersion_eq_some_iff.2 h]

theorem versionHint_of_none (hconfig : ∀ v, ¬s.ConfigHint home v)
    (hrecord : ∀ v, ¬s.RecordHint home v) :
    s.versionHint home executable = Version.ofExecutable executable := by
  rw [versionHint, configVersion_eq_none_iff.2 hconfig, packageVersion_eq_none_iff.2 hrecord]

/-- The place that gives the answer: the deciding line, the first package record, or neither. -/
theorem hint_cases (s : Surroundings) (home : Path) :
    (∃ v, s.ConfigHint home v) ∨ (∀ v, ¬s.ConfigHint home v) ∧
      ((∃ v, s.RecordHint home v) ∨ ∀ v, ¬s.RecordHint home v) := by
  by_cases hconfig : ∃ v, s.ConfigHint home v
  · exact .inl hconfig
  · refine .inr ⟨not_exists.1 hconfig, ?_⟩
    by_cases hrecord : ∃ v, s.RecordHint home v
    · exact .inl hrecord
    · exact .inr (not_exists.1 hrecord)

theorem hints_ofExecutable (h : (Version.ofExecutable executable).isUnknown = false) :
    s.Hints home executable (Version.ofExecutable executable) := by
  unfold Version.ofExecutable at h ⊢
  cases hbind : executable.fileName?.bind Version.ofExecutableName with
  | none =>
      rw [hbind] at h
      cases h
  | some v =>
      obtain ⟨name, hname, hv⟩ := Option.bind_eq_some_iff.1 hbind
      exact .executable hname hv

/-- **An answer that is known is one of the hints.** -/
theorem hints_versionHint (h : (s.versionHint home executable).isUnknown = false) :
    s.Hints home executable (s.versionHint home executable) := by
  rcases hint_cases s home with ⟨v, hv⟩ | ⟨hconfig, ⟨v, hv⟩ | hrecord⟩
  · rw [versionHint_of_config hv]
    exact hv.hints
  · rw [versionHint_of_record hconfig hv]
    exact hv.hints
  · rw [versionHint_of_none hconfig hrecord] at h ⊢
    exact hints_ofExecutable h

/-! ### Legible files -/

theorem Legible.isUnknown_of_hints (h : s.Legible home)
    (hunknown : (s.versionHint home executable).isUnknown = true) (hv : s.Hints home executable v) :
    v.isUnknown = true := by
  -- the places before the last one give known versions only, so the answer comes from the last
  have hconfig : ∀ v, ¬s.ConfigHint home v := by
    intro v hv
    rw [versionHint_of_config hv, h.config hv] at hunknown
    cases hunknown
  have hrecord : ∀ v, ¬s.RecordHint home v := by
    intro v hv
    rw [versionHint_of_record hconfig hv, h.record hconfig hv] at hunknown
    cases hunknown
  rw [versionHint_of_none hconfig hrecord] at hunknown
  cases hv with
  | setting hread hmem hkey hv => exact h.lines hconfig hrecord hread hmem hkey hv
  | package hentry hv =>
      have hnone := List.findSome?_eq_none_iff.1 (packageVersion_eq_none_iff.2 hrecord) _ hentry
      cases hnone.symm.trans hv
  | executable hname hv =>
      rw [Version.ofExecutable, hname, Option.bind_some, hv] at hunknown
      exact hunknown

/-- The name of the executable may be a hint or none, so that hidden hints show. -/
theorem legible_of_best_hint
    (h : ∀ executable, (s.versionHint home executable).isUnknown = true →
      ∀ v, s.Hints home executable v → v.isUnknown = true) : s.Legible home := by
  have hnamed : s.Hints home ⟨"python3"⟩ ⟨some 3, none, none, none, none⟩ :=
    .executable (by decide +kernel : _ = some "python3") (by decide +kernel)
  have hknown : ∀ v, s.versionHint home ⟨"python3"⟩ = v → v.isUnknown = false := by
    rintro v rfl
    rw [← Bool.not_eq_true]
    intro hunknown
    cases h _ hunknown _ hnamed
  constructor
  · intro v hv
    exact hknown v (versionHint_of_config hv)
  · intro hconfig v hv
    exact hknown v (versionHint_of_record hconfig hv)
  · intro hconfig hrecord content key value v hread hmem hkey hv
    have hunnamed : Version.ofExecutable ⟨"python"⟩ = .unknown := by decide +kernel
    refine h ⟨"python"⟩ ?_ v (.setting hread hmem hkey hv)
    rw [versionHint_of_none hconfig hrecord, hunnamed]
    rfl

/-- **The answer is unknown only if every hint is, exactly for legible files**; and whatever the
files, an answer that is known is one of the hints. -/
theorem legible_iff_best_hint (s : Surroundings) (home : Path) :
    (s.Legible home ↔ ∀ executable, (s.versionHint home executable).isUnknown = true →
      ∀ v, s.Hints home executable v → v.isUnknown = true) ∧
      ∀ executable, (s.versionHint home executable).isUnknown = false →
        s.Hints home executable (s.versionHint home executable) :=
  ⟨⟨fun h _ hunknown _ hv => h.isUnknown_of_hints hunknown hv, legible_of_best_hint⟩,
    fun _ => hints_versionHint⟩

/-- Files of an environment with the given configuration. -/
def withConfig (content : String) : Surroundings where
  fs :=
    { present := fun _ => false
      lstat := fun _ => none
      stat := fun _ => none
      listDir := fun _ => []
      readLink := fun _ => none
      realPath := fun _ => none
      readText := fun p => if p = ⟨"/env/pyvenv.cfg"⟩ then some content else none }
  host := ⟨none, []⟩

/-- A deciding line hides another one if it cannot be read, be it a `version` or a later
`version_info`, and it hides the name of the executable if its first number has no value. -/
theorem deciding_line_hides_hints :
    let home : Path := ⟨"/env"⟩
    let v : Version := ⟨some 3, some 9, some 7, none, none⟩
    let hidden := fun content executable v =>
      (withConfig content).versionHint home executable = .unknown ∧
        (withConfig content).Hints home executable v
    hidden "version_info = 3.9.7.final.0\nversion = unknown\n" ⟨"/env/bin/python"⟩ v ∧
    hidden "version_info = 3.9.7.final.0\nversion_info = x\n" ⟨"/env/bin/python"⟩ v ∧
    hidden "version = 4294967296\n" ⟨"/env/bin/python3"⟩ ⟨some 3, none, none, none, none⟩ := by
  intro home v hidden
  have hread : ∀ content, (withConfig content).fs.readText (home / "pyvenv.cfg") = some content :=
    fun _ => if_pos (by decide +kernel)
  refine ⟨⟨by decide +kernel, ?_⟩, ⟨by decide +kernel, ?_⟩, by decide +kernel, ?_⟩
  · exact .setting (hread _) (by decide +kernel : ("version_info", " 3.9.7.final.0".toList) ∈ _)
      (.inr rfl)
      (by decide +kernel)
  · exact .setting (hread _) (by decide +kernel : ("version_info", " 3.9.7.final.0".toList) ∈ _)
      (.inr rfl)
      (by decide +kernel)
  · exact .executable (by decide +kernel : _ = some "python3") (by decide +kernel)

end Surroundings

end EnvDiscovery
