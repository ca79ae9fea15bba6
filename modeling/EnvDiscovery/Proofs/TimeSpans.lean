import EnvDiscovery.Discovery.Setup
import EnvDiscovery.Proofs.LoadedSettings
import EnvDiscovery.Proofs.SettingLines

/-!
**Spans of time in the settings.**

The settings give three spans of time as words of 64 bits. Seconds and milliseconds always make a
span. The age of cached answers is given in hours and becomes seconds by two products, of which the
second does not fit a word any more from some number of hours on. Every number of hours but zero can
be set, so there are settings that are loaded and with which no discovery can be set up.

Main definitions:
* `Duration.Fits` — seconds that fit a word, and less than a second of nanoseconds;
* `mul?` — the product of two words, if it fits;
* `Config.maxExpiryHours` — the most hours of which the seconds fit a word.

Main results:
* `Config.cacheExpiry_eq_products` — the age of cached answers as two products of words;
* `Config.cacheExpiry_eq_some_iff` — when it can be told, and then it is exact;
* `Config.load_hours` — every number of hours but zero can be set;
* `Config.expiry_overflows_beyond_limit` — **settings are loaded and overflow exactly beyond that
  number of hours**.
-/

namespace EnvDiscovery

/-- A span that its fields hold: seconds in a word, and less than a second of nanoseconds. -/
structure Duration.Fits (d : Duration) : Prop where
  secs : d.secs < UInt64.size
  nanos : d.nanos < 1000000000

/-- The product of two words, if it fits a word. -/
def mul? (a b : UInt64) : Option UInt64 :=
  if a.toNat * b.toNat < UInt64.size then some (a * b) else none

namespace Config

variable {c : Config} {hours : UInt64}

/-! ### The three spans -/

theorem resolveTimeout_spec (c : Config) :
    c.resolveTimeout.Fits ∧ c.resolveTimeout.totalNanos = c.resolveTimeoutSecs.toNat *
      1000000000 := by
  rw [resolveTimeout, Duration.ofSecs, Duration.totalNanos, Nat.add_zero]
  exact ⟨⟨c.resolveTimeoutSecs.toNat_lt_size, Nat.zero_lt_succ _⟩, rfl⟩

theorem pollInterval_spec (c : Config) :
    c.pollInterval.Fits ∧ c.pollInterval.totalNanos = c.watch.pollIntervalMs.toNat * 1000000 := by
  have hsize := c.watch.pollIntervalMs.toNat_lt_size
  rw [pollInterval, Duration.ofMillis, Duration.totalNanos]
  dsimp only
  refine ⟨⟨?_, ?_⟩, ?_⟩
  · dsimp only
    omega
  · dsimp only
    omega
  · omega

/-- The most hours of which the seconds fit a word. -/
def maxExpiryHours : Nat := (UInt64.size - 1) / 3600

example : maxExpiryHours = 5124095576030431 := by decide

theorem cacheExpiry_eq_some_iff {d : Duration} : c.cacheExpiry = some d ↔
    c.cacheExpiryHours.toNat ≤ maxExpiryHours ∧ d = .ofSecs (c.cacheExpiryHours.toNat * 3600) := by
  have hsecs : c.cacheExpiryHours.toNat * 60 * 60 = c.cacheExpiryHours.toNat * 3600 := by omega
  have hlimit : c.cacheExpiryHours.toNat * 3600 < UInt64.size ↔
      c.cacheExpiryHours.toNat ≤ maxExpiryHours := by
    rw [maxExpiryHours, UInt64.size]
    omega
  rw [cacheExpiry, hsecs, Option.ite_none_right_eq_some, hlimit, Option.some_inj,
    @eq_comm Duration d]

theorem cacheExpiry_eq_none_iff :
    c.cacheExpiry = none ↔ maxExpiryHours < c.cacheExpiryHours.toNat := by
  rw [Option.eq_none_iff_forall_ne_some]
  constructor
  · intro hnone
    by_contra hle
    exact hnone _ (cacheExpiry_eq_some_iff.2 ⟨by omega, rfl⟩)
  · intro hlt d hd
    have := (cacheExpiry_eq_some_iff.1 hd).1
    omega

/-- The age of cached answers as two products of words. -/
theorem cacheExpiry_eq_products (c : Config) :
    c.cacheExpiry = ((mul? c.cacheExpiryHours 60).bind (mul? · 60)).map fun secs =>
      .ofSecs secs.toNat := by
  have hsixty : (60 : UInt64).toNat = 60 := rfl
  have hstep : ∀ a : UInt64, a.toNat * 60 < UInt64.size →
      mul? a 60 = some (a * 60) ∧ (a * 60).toNat = a.toNat * 60 := by
    intro a ha
    refine ⟨by rw [mul?, hsixty, if_pos ha], ?_⟩
    rw [UInt64.toNat_mul, hsixty]
    exact Nat.mod_eq_of_lt ha
  have hover : ∀ a : UInt64, ¬a.toNat * 60 < UInt64.size → mul? a 60 = none := by
    intro a ha
    rw [mul?, hsixty, if_neg ha]
  rw [cacheExpiry]
  by_cases hminutes : c.cacheExpiryHours.toNat * 60 < UInt64.size
  · obtain ⟨hproduct, hvalue⟩ := hstep _ hminutes
    rw [hproduct, Option.bind_some, ← hvalue]
    split
    case isTrue hsecs =>
      obtain ⟨hproduct', hvalue'⟩ := hstep _ hsecs
      rw [hproduct', Option.map_some, hvalue']
    case isFalse hsecs => rw [hover _ hsecs, Option.map_none]
  · rw [hover _ hminutes, Option.bind_none, Option.map_none, if_neg (by omega)]

/-- A discovery can be set up exactly if the age of cached answers can be told. -/
theorem ofConfig_eq_none_iff (machine : Machine) (registry : Option Registry.Reader)
    (now : Timestamp) (store : Store) (watcher : Watcher) (folders : List Path) :
    Session.ofConfig c machine registry now store watcher folders = none ↔
      maxExpiryHours < c.cacheExpiryHours.toNat := by
  rw [Session.ofConfig, Option.map_eq_none_iff, cacheExpiry_eq_none_iff]

/-! ### A line with the hours -/

section Fields

open Yaml

variable {α β : Type} {key name : String}

theorem field_self (n : LinkedNode) (default : α) (read : LinkedNode → Option α) :
    field [(key, n)] key default read = read n := by
  simp [field]

/-- A field of another name leaves the default. -/
theorem field_bind_of_ne (h : key ≠ name) (n : LinkedNode) (default : α)
    (read : LinkedNode → Option α) (f : α → Option β) :
    (field [(key, n)] name default read >>= f) = f default := by
  simp [field, h]

/-- A document with the hours alone. -/
theorem ofFields?_hours {d : Document} {n : LinkedNode} (hn : d.number? n = some hours) :
    ofFields? d [("cache_expiry_hours", n)] = some { cacheExpiryHours := hours } := by
  have hnames : (!([("cache_expiry_hours", n)] : List (String × LinkedNode)).all
      (fieldNames.contains ·.1)) = false := by
    simp [fieldNames]
  unfold ofFields?
  rw [if_neg (by rw [hnames]; exact Bool.false_ne_true)]
  dsimp only
  -- The fields in the order in which they are looked up.
  rw [field_bind_of_ne (by decide : _ ≠ "conda_path"),
    field_bind_of_ne (by decide : _ ≠ "venv_path"),
    field_bind_of_ne (by decide : _ ≠ "venv_folders"),
    field_bind_of_ne (by decide : _ ≠ "search_paths"),
    field_bind_of_ne (by decide : _ ≠ "resolve_timeout_secs"), field_self, hn, Option.bind_eq_bind,
      Option.bind_some,
    field_bind_of_ne (by decide : _ ≠ "include_registry"),
      field_bind_of_ne (by decide : _ ≠ "include_path"),
    field_bind_of_ne (by decide : _ ≠ "watch"), field_bind_of_ne (by decide : _ ≠ "cache_dir")]
  rfl

/-- The text that sets the hours. -/
def hoursLine (hours : UInt64) : String :=
  "cache_expiry_hours: " ++ Text.decimal hours.toNat

theorem hoursLine_eq (hours : UInt64) :
    hoursLine hours = lineText "cache_expiry_hours".toList (Text.decimalChars hours.toNat) := by
  have hkey : "cache_expiry_hours: " = String.ofList
      ("cache_expiry_hours".toList ++ [':', ' ']) := by decide
  unfold hoursLine Text.decimal lineText
  rw [hkey, ← String.ofList_append, List.append_assoc]
  rfl

theorem isWord_decimalChars (n : Nat) : IsWord (Text.decimalChars n) where
  nonempty := Text.decimalChars_ne_nil n
  letters c hc := by
    rw [isWordLetter, Char.isAlphanum, Text.isDigit_decimalChars hc, Bool.or_true, Bool.true_or]

/-- The text that sets the hours spells these hours and nothing else. -/
theorem spelled_hoursLine (hours : UInt64) :
    (Document.parse (hoursLine hours)).bind ofDocument? = some { cacheExpiryHours := hours } := by
  have hkey : IsWord "cache_expiry_hours".toList := ⟨by decide, List.all_eq_true.1 (by decide)⟩
  have hnumber : ∀ d : Document, d.number? (.scalar none ⟨Text.decimal hours.toNat, .plain, none⟩) =
      some hours := by
    intro d
    have hscalar :
        (d.scalar? (.scalar none ⟨Text.decimal hours.toNat, .plain, none⟩)).filter
          (·.isTyped "int") = some ⟨Text.decimal hours.toNat, .plain, none⟩ := rfl
    rw [Document.number?, hscalar, Option.bind_some, natOfText?_decimal, Option.bind_some,
      if_pos hours.toNat_lt_size, UInt64.ofNat_toNat]
  rw [hoursLine_eq, parse_lineText hkey (by decide) (isWord_decimalChars _),
    Option.bind_some, ofDocument?, String.ofList_toList, ← Text.decimal]
  exact ofFields?_hours (hnumber _)

end Fields

/-- **Every number of hours but zero can be set**, in a file that says nothing else. -/
theorem load_hours {fs : FileSystem} {h : Host} {file : Path} (hpositive : 0 < hours)
    (hpresent : fs.present file = true) (hread : fs.readText file = some (hoursLine hours))
    (habsolute : ∀ name ∈ [homeVariable, condaVariable], ∀ v, h.var name = some v →
      (⟨v⟩ : Path).isAbsolute = true) :
    load fs h (some file) = .ok (withVariables { cacheExpiryHours := hours } h) := by
  have husual : Usable {} := fault?_eq_none_iff.1 (by decide)
  have husable : Usable { cacheExpiryHours := hours } :=
    ⟨husual.timeout, hpositive, husual.poll, husual.condaPath, husual.venvPath, husual.cacheDir,
      husual.searchPaths⟩
  have hcontent : Text.trim (hoursLine hours) ≠ "" := by
    refine Text.trim_ne_empty (x := 'c') ?_ (by decide)
    rw [hoursLine_eq, Yaml.lineText, String.toList_ofList]
    exact List.mem_append_left _ (by decide)
  have hvariable : ∀ name ∈ [homeVariable, condaVariable], ∀ p,
      ((h.var name).map Path.mk <|> none) = some p → p.isAbsolute = true := by
    intro name hname p hp
    rw [Option.orElse_eq_orElse, Option.orElse_eq_or, Option.or_none] at hp
    obtain ⟨v, hv, rfl⟩ := Option.map_eq_some_iff.1 hp
    exact habsolute name hname v hv
  refine load_eq_ok_iff.2 ⟨_, .given (.spelled hpresent hread hcontent (spelled_hoursLine hours)
    husable), rfl, ?_⟩
  exact ⟨husable.timeout, hpositive, husable.poll, hvariable condaVariable (by simp),
    husable.venvPath, hvariable homeVariable (by simp), husable.searchPaths⟩

/-! ### Settings that overflow -/

/-- **Settings overflow exactly beyond the most hours of which the seconds fit a word, and such
settings are loaded.** Whatever the settings, the time to wait for an interpreter and the time
between polls are exact and fit. The age of cached answers is the product of words that it is
written as; it is told for as many hours as fit and is then exactly their seconds, and beyond them
no discovery can be set up. Every number of hours but zero can be loaded. -/
theorem expiry_overflows_beyond_limit (fs : FileSystem) (h : Host) :
    (∀ c : Config,
      (c.resolveTimeout.Fits ∧
        c.resolveTimeout.totalNanos = c.resolveTimeoutSecs.toNat * 1000000000) ∧
      (c.pollInterval.Fits ∧ c.pollInterval.totalNanos = c.watch.pollIntervalMs.toNat * 1000000) ∧
      c.cacheExpiry = ((mul? c.cacheExpiryHours 60).bind (mul? · 60)).map
        (fun secs => .ofSecs secs.toNat) ∧
      (∀ d, c.cacheExpiry = some d ↔
        c.cacheExpiryHours.toNat ≤ maxExpiryHours ∧ d = .ofSecs (c.cacheExpiryHours.toNat * 3600)) ∧
      ∀ machine registry now store watcher folders,
        Session.ofConfig c machine registry now store watcher folders = none ↔
          maxExpiryHours < c.cacheExpiryHours.toNat) ∧
      ∀ file hours, 0 < hours → fs.present file = true → fs.readText file = some (hoursLine hours) →
        (∀ name ∈ [homeVariable, condaVariable], ∀ v, h.var name = some v →
          (⟨v⟩ : Path).isAbsolute = true) →
        ∃ c, load fs h (some file) = .ok c ∧ c.cacheExpiryHours = hours := by
  refine ⟨fun c => ?_, fun file hours hpositive hpresent hread habsolute => ?_⟩
  · exact ⟨resolveTimeout_spec c, pollInterval_spec c, cacheExpiry_eq_products c,
      fun d => cacheExpiry_eq_some_iff, ofConfig_eq_none_iff⟩
  · exact ⟨_, load_hours hpositive hpresent hread habsolute, rfl⟩

/-- The most hours that can be told. -/
theorem expiry_overflows_beyond_limit_most :
    let file : Path := ⟨"/etc/pyscout.yaml"⟩
    let fs := oneFile file "cache_expiry_hours: 5124095576030431"
    ∃ c, load fs ⟨none, []⟩ (some file) = .ok c ∧
      c.cacheExpiry = some (.ofSecs 18446744073709551600) := by
  intro file fs
  have hread : fs.readText file = some (hoursLine 5124095576030431) := by decide +kernel
  obtain ⟨hspans, hloads⟩ := expiry_overflows_beyond_limit fs ⟨none, []⟩
  obtain ⟨c, hload, hhours⟩ :=
    hloads file 5124095576030431 (by decide) (by decide) hread (by simp [Host.var])
  obtain ⟨-, -, -, hexpiry, -⟩ := hspans c
  exact ⟨c, hload, (hexpiry _).2 (by rw [hhours]; decide)⟩

/-- One hour more is loaded, and no discovery can be set up. -/
theorem load_ok_and_ofConfig_eq_none :
    let file : Path := ⟨"/etc/pyscout.yaml"⟩
    let fs := oneFile file "cache_expiry_hours: 5124095576030432"
    ∃ c, load fs ⟨none, []⟩ (some file) = .ok c ∧ c.cacheExpiry = none ∧
      ∀ machine registry now store watcher folders,
        Session.ofConfig c machine registry now store watcher folders = none := by
  intro file fs
  have hread : fs.readText file = some (hoursLine 5124095576030432) := by decide +kernel
  refine ⟨_, load_hours (by decide) (by decide) hread (by simp [Host.var]),
    cacheExpiry_eq_none_iff.2 (by decide), ?_⟩
  intro machine registry now store watcher folders
  exact (ofConfig_eq_none_iff machine registry now store watcher folders).2 (by decide)

end Config

end EnvDiscovery
