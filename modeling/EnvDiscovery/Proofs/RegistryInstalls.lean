import EnvDiscovery.Proofs.Places
import EnvDiscovery.Proofs.RegistryListings

/-!
**Which installations are found in the registry.**

The search goes through four views, and in each through the tags of all companies. Every entry rests
on four reads: the companies of the view, the tags of the company, the values of the tag and those
of its `InstallPath`. So a read that fails takes with it the entries that rest on it and no others;
what it lets through are entries for places whose first entry is gone.

Main definitions:
* `Registry.Entry`, `Registry.Read`, `Registry.Entry.reads` — entries and the reads they rest on;
* `Registry.Says`, `Registry.LeadsTo`, `Registry.Describes` — what the values of an entry say, the
  executable they lead to and the installation they describe;
* `Registry.firsts` — the first element for each key of a list;
* `Registry.Reader.entries`, `Registry.Reader.found`, `Registry.Reader.kept` — all entries, those
  with an installation, and the first of these for each place;
* `Registry.Reader.denying` — a reader for which some reads fail.

Main results:
* `Registry.Reader.installAt_eq_some_iff` — an entry has the installation that its values describe;
* `Registry.value_viewInstalls`, `Registry.value_gather_places` — the search finds the installations
  of all entries;
* `Registry.mem_firsts_filter`, `Registry.of_mem_firsts_filter` — first elements when others are
  taken out;
* `Registry.Reader.found_denying` — **failing reads take away the entries that rest on them**;
* `Registry.installs_are_first_entries` — the installations are the first entries, and what failures
  change.
-/

namespace EnvDiscovery.Registry

/-! ### Entries -/

/-- A tag of a company in one view of a hive. -/
structure Entry where
  hive : Hive
  view : View
  company : String
  tag : String
deriving DecidableEq

/-- One read of the registry. -/
inductive Read where
  | keys (q : Query)
  | values (q : Query)
deriving DecidableEq

namespace Entry

/-- The key below which the company of an entry is listed. -/
def root (e : Entry) : Query := ⟨e.hive, e.view, pythonKey⟩

/-- The key of the company. -/
def companyKey (e : Entry) : Query := e.root.child e.company

/-- The key of the entry. -/
def key (e : Entry) : Query := e.companyKey.child e.tag

/-- The reads that an entry rests on: two that list it and two for its values. -/
def reads (e : Entry) : List Read :=
  [.keys e.root, .keys e.companyKey, .values e.key, .values (e.key.child "InstallPath")]

/-- Whether an entry rests on one of the given reads. -/
def restsOn (e : Entry) (denied : Read → Bool) : Bool :=
  e.reads.any denied

end Entry

/-! ### What values say -/

/-- What values say under a name: the text of the first value of that name, in any case, unless it
is empty. -/
def stated (values : List Value) (name : String) : Option String :=
  match values.dropWhile fun v => !Text.eqIgnoreCase v.name name with
  | [] => none
  | v :: _ => if v.value = "" then none else some v.value

/-- The executable that the values of `InstallPath` give: the one they name, or else `python.exe` in
the directory that is their default value. -/
def executableFrom (installPath : List Value) : Option Path :=
  match stated installPath "ExecutablePath", stated installPath "" with
  | some file, _ => some ⟨file⟩
  | none, some dir => some ((⟨dir⟩ : Path) / "python.exe")
  | none, none => none

/-- Values say a text under a name: it is not empty, and it is that of the first value of the
name. -/
def Says (values : List Value) (name text : String) : Prop :=
  text ≠ "" ∧ ∃ before v after, values = before ++ v :: after ∧ v.value = text ∧
    Text.eqIgnoreCase v.name name = true ∧ ∀ u ∈ before, Text.eqIgnoreCase u.name name = false

/-- The values of `InstallPath` lead to an executable. -/
inductive LeadsTo (installPath : List Value) : Path → Prop where
  /-- They name it. -/
  | named {file : String} (h : Says installPath "ExecutablePath" file) : LeadsTo installPath ⟨file⟩
  /-- They name none, but their default value is its directory. -/
  | inDirectory {dir : String} (hnone : ∀ file, ¬Says installPath "ExecutablePath" file)
      (h : Says installPath "" dir) : LeadsTo installPath ((⟨dir⟩ : Path) / "python.exe")

/-- An installation is the one that the values of an entry describe. -/
structure Describes (e : Entry) (info installPath : List Value) (i : Install) : Prop where
  company : i.company = e.company
  tag : '\\' ∉ i.tag.toList ∧ '\\' :: i.tag.toList <:+ '\\' :: e.tag.toList
  executable : LeadsTo installPath i.executable
  displayName : ∀ text, i.displayName = some text ↔ Says info "DisplayName" text
  sysVersion : ∀ text, i.sysVersion = some text ↔ Says info "SysVersion" text
  version : ∀ text, i.version = some text ↔ Says info "Version" text
  sysArchitecture : ∀ text, i.sysArchitecture = some text ↔ Says info "SysArchitecture" text

/-- The first element for each key, in order. -/
def firsts {α κ : Type} [DecidableEq κ] (key : α → κ) (l : List α) : List α :=
  l.eraseDupsBy fun a b => key a == key b

namespace Reader

/-- The keys listed below a key; none if the read fails. -/
def listed (r : Reader) (q : Query) : List String :=
  (r.keys q).value.getD []

/-- The entries of a company. -/
def companyEntries (r : Reader) (hive : Hive) (view : View) (company : String) : List Entry :=
  (r.listed ((⟨hive, view, pythonKey⟩ : Query).child company)).map fun tag =>
    ⟨hive, view, company, tag⟩

/-- The entries of a view: the tags of all companies but the launcher, in the order of the
listings. -/
def viewEntries (r : Reader) (hive : Hive) (view : View) : List Entry :=
  ((r.listed ⟨hive, view, pythonKey⟩).filter (· != "PyLauncher")).flatMap
    (r.companyEntries hive view)

/-- All entries: those of the machine before those of the user, and of either the 32-bit view before
the 64-bit view. -/
def entries (r : Reader) : List Entry :=
  [Hive.localMachine, .currentUser].flatMap fun hive => [View.x86, .x64].flatMap fun view =>
    r.viewEntries hive view

/-- The installation of an entry, if the reads of its values succeed and give an executable. -/
def installAt (r : Reader) (e : Entry) : Option Install :=
  (r.values e.key).value.bind fun info =>
    (r.values (e.key.child "InstallPath")).value.bind fun installPath =>
      (executableFrom installPath).map fun executable =>
        ⟨e.company, lastPart e.tag, executable, stated info "DisplayName", stated info "SysVersion",
          stated info "Version", stated info "SysArchitecture"⟩

/-- An entry holds an installation: the reads of its values succeed and describe the
installation. -/
def Holds (r : Reader) (e : Entry) (i : Install) : Prop :=
  ∃ info installPath, (r.values e.key).value = some info ∧
    (r.values (e.key.child "InstallPath")).value = some installPath ∧
    Describes e info installPath i

/-- An entry together with its installation, if it has one. -/
def foundAt (r : Reader) (e : Entry) : Option (Entry × Install) :=
  (r.installAt e).map fun i => (e, i)

/-- The entries with an installation. -/
def found (r : Reader) : List (Entry × Install) :=
  r.entries.filterMap r.foundAt

/-- The first of these entries for each place of an executable. -/
def kept (r : Reader) : List (Entry × Install) :=
  firsts (·.2.executable.key) r.found

/-- The reader for which the given reads fail. -/
def denying (r : Reader) (denied : Read → Bool) : Reader where
  keys q := if denied (.keys q) then ⟨none, (r.keys q).calls⟩ else r.keys q
  values q := if denied (.values q) then ⟨none, (r.values q).calls⟩ else r.values q

end Reader

/-! ### The values of an entry -/

section Values

variable {values installPath : List Value} {name text : String} {executable : Path}

theorem stated_cons_of_named {v : Value} (h : Text.eqIgnoreCase v.name name = true)
    (values : List Value) :
    stated (v :: values) name = if v.value = "" then none else some v.value := by
  rw [stated, List.dropWhile_cons_of_neg (by simp [h])]

theorem stated_cons_of_not_named {v : Value} (h : Text.eqIgnoreCase v.name name = false)
    (values : List Value) :
    stated (v :: values) name = stated values name := by
  rw [stated, stated, List.dropWhile_cons_of_pos (by simp [h])]

theorem stated_eq_some_iff : stated values name = some text ↔ Says values name text := by
  induction values with
  | nil => simp [stated, Says]
  | cons v values ih =>
      cases hv : Text.eqIgnoreCase v.name name with
      | true =>
          rw [stated_cons_of_named hv]
          constructor
          · intro h
            obtain ⟨hne, rfl⟩ : ¬v.value = "" ∧ v.value = text := by simpa using h
            exact ⟨hne, [], v, values, rfl, rfl, hv, nofun⟩
          · rintro ⟨hne, before, u, after, hsplit, rfl, -, hbefore⟩
            cases before with
            | nil =>
                obtain ⟨rfl, -⟩ := List.cons.inj hsplit
                rw [if_neg hne]
            | cons b before =>
                -- the value of the name is not the first one, which has the name too
                obtain ⟨rfl, -⟩ := List.cons.inj hsplit
                rw [hbefore v List.mem_cons_self] at hv
                cases hv
      | false =>
          rw [stated_cons_of_not_named hv, ih]
          constructor
          · rintro ⟨hne, before, u, after, rfl, hrest⟩
            exact ⟨hne, v :: before, u, after, rfl, hrest.1, hrest.2.1,
              List.forall_mem_cons.2 ⟨hv, hrest.2.2⟩⟩
          · rintro ⟨hne, before, u, after, hsplit, htext, hname, hbefore⟩
            cases before with
            | nil =>
                obtain ⟨rfl, -⟩ := List.cons.inj hsplit
                rw [hname] at hv
                cases hv
            | cons b before =>
                obtain ⟨-, rfl⟩ := List.cons.inj hsplit
                exact ⟨hne, before, u, after, rfl, htext, hname, (List.forall_mem_cons.1 hbefore).2⟩

theorem stated_eq_none_iff : stated values name = none ↔ ∀ text, ¬Says values name text := by
  rw [Option.eq_none_iff_forall_ne_some]
  exact forall_congr' fun text => not_congr stated_eq_some_iff

/-- The search reads what the values say. -/
theorem valueNamed_eq_stated (values : List Value) (name : String) :
    valueNamed values name = stated values name := by
  induction values with
  | nil => rfl
  | cons v values ih =>
      cases hv : Text.eqIgnoreCase v.name name with
      | true =>
          have hfind : (v :: values).find? (fun v => Text.eqIgnoreCase v.name name) = some v :=
            List.find?_cons_of_pos hv
          rw [stated_cons_of_named hv, valueNamed, hfind, Option.map_some, Option.filter_some]
          by_cases hempty : v.value = "" <;> simp [hempty]
      | false =>
          have hfind : (v :: values).find? (fun v => Text.eqIgnoreCase v.name name) =
              values.find? fun v => Text.eqIgnoreCase v.name name :=
                List.find?_cons_of_neg (by simp [hv])
          rw [stated_cons_of_not_named hv, ← ih, valueNamed, hfind, valueNamed]

theorem executableOf_eq_executableFrom (installPath : List Value) :
    executableOf installPath = executableFrom installPath := by
  rw [executableOf, executableFrom, valueNamed_eq_stated, valueNamed_eq_stated]
  cases stated installPath "ExecutablePath" <;> cases stated installPath "" <;> rfl

theorem executableFrom_eq_some_iff :
    executableFrom installPath = some executable ↔ LeadsTo installPath executable := by
  rw [executableFrom]
  constructor
  · intro h
    split at h
    · case h_1 file hfile =>
        obtain rfl := Option.some.inj h
        exact .named (stated_eq_some_iff.1 hfile)
    · case h_2 dir hnone hdir =>
        obtain rfl := Option.some.inj h
        exact .inDirectory (stated_eq_none_iff.1 hnone) (stated_eq_some_iff.1 hdir)
    · cases h
  · intro h
    cases h with
    | named hfile => rw [stated_eq_some_iff.2 hfile]
    | inDirectory hnone hdir => rw [stated_eq_none_iff.2 hnone, stated_eq_some_iff.2 hdir]

/-- What follows the last backslash. -/
theorem eq_lastPart_iff {t s : String} :
    t = lastPart s ↔ '\\' ∉ t.toList ∧ '\\' :: t.toList <:+ '\\' :: s.toList := by
  constructor
  · rintro rfl
    have hlast : (lastPart s).toList = (s.toList.reverse.takeWhile (· != '\\')).reverse :=
      String.toList_ofList
    rw [hlast]
    constructor
    · intro hmem
      have hne := List.mem_takeWhile_imp (List.mem_reverse.1 hmem)
      simp at hne
    · -- read backwards, the text goes on until the first backslash, which may be the one put before
      -- it
      have hparts : s.toList = (s.toList.reverse.dropWhile (· != '\\')).reverse ++
          (s.toList.reverse.takeWhile (· != '\\')).reverse := by
        rw [← List.reverse_append, List.takeWhile_append_dropWhile, List.reverse_reverse]
      have hstop : ∀ c rest, s.toList.reverse.dropWhile (· != '\\') = c :: rest → c = '\\' := by
        intro c rest hrest
        have hhead := List.head?_dropWhile_not (· != '\\') s.toList.reverse
        rw [hrest] at hhead
        simpa using hhead
      cases hrest : s.toList.reverse.dropWhile (· != '\\') with
      | nil =>
          rw [hrest, List.reverse_nil, List.nil_append] at hparts
          rw [← hparts]
      | cons c rest =>
          obtain rfl := hstop c rest hrest
          rw [hrest, List.reverse_cons] at hparts
          refine ⟨'\\' :: rest.reverse, ?_⟩
          conv => rhs; rw [hparts]
          simp
  · rintro ⟨hno, before, hsplit⟩
    rcases before with _ | ⟨b, before⟩
    · obtain ⟨-, heq⟩ := List.cons.inj hsplit
      rw [← String.toList_inj.1 heq, lastPart_of_notMem hno]
    · obtain ⟨-, heq⟩ := List.cons.inj hsplit
      have hs : s = String.ofList before ++ "\\" ++ t := by
        rw [← String.toList_inj]
        simp [← heq]
      rw [hs, lastPart_below, lastPart_of_notMem hno]

/-- **An entry has the installation that its values describe.** -/
theorem Reader.installAt_eq_some_iff {r : Reader} {e : Entry} {i : Install} :
    r.installAt e = some i ↔ r.Holds e i := by
  rw [installAt]
  constructor
  · intro h
    obtain ⟨info, hinfo, h⟩ := Option.bind_eq_some_iff.1 h
    obtain ⟨installPath, hpath, h⟩ := Option.bind_eq_some_iff.1 h
    obtain ⟨executable, hexecutable, rfl⟩ := Option.map_eq_some_iff.1 h
    refine ⟨info, installPath, hinfo, hpath, ?_⟩
    exact {
      company := rfl
      tag := eq_lastPart_iff.1 rfl
      executable := executableFrom_eq_some_iff.1 hexecutable
      displayName := fun _ => stated_eq_some_iff
      sysVersion := fun _ => stated_eq_some_iff
      version := fun _ => stated_eq_some_iff
      sysArchitecture := fun _ => stated_eq_some_iff }
  · rintro ⟨info, installPath, hinfo, hpath, hdescribes⟩
    -- each field of the installation is settled by what the values say
    have hfield : ∀ {name : String} {field : Option String}, (∀ text, field = some text ↔
      Says info name text) →
        stated info name = field := by
      intro name field h
      exact Option.ext fun text => stated_eq_some_iff.trans (h text).symm
    rw [hinfo, Option.bind_some, hpath, Option.bind_some,
      executableFrom_eq_some_iff.2 hdescribes.executable, Option.map_some,
      ← eq_lastPart_iff.2 hdescribes.tag, hfield hdescribes.displayName,
      hfield hdescribes.sysVersion, hfield hdescribes.version, hfield hdescribes.sysArchitecture,
      ← hdescribes.company]

end Values

/-! ### The search -/

section Search

variable {α β : Type} (r : Reader)

theorem value_gather (f : α → Traced (List β)) (as : List α) :
    (gather f as).value = as.flatMap fun a => (f a).value := by
  induction as with
  | nil => rfl
  | cons a as ih =>
      rw [List.flatMap_cons, ← ih]
      rfl

theorem value_readInstall (e : Entry) : (readInstall r e.company e.key).value = r.installAt e := by
  have htag : lastPart e.key.key = lastPart e.tag := lastPart_below e.companyKey.key e.tag
  rw [readInstall, Reader.installAt, htag]
  simp only [bind, Traced.bind]
  cases (r.values e.key).value with
  | none => rfl
  | some info =>
      cases (r.values (e.key.child "InstallPath")).value with
      | none => rfl
      | some installPath =>
          change installOf e.company (lastPart e.tag) info installPath = _
          simp only [installOf, executableOf_eq_executableFrom, valueNamed_eq_stated]
          rfl

theorem value_companyInstalls (hive : Hive) (view : View) (company : String) :
    (companyInstalls r ⟨hive, view, pythonKey⟩ company).value =
      (r.companyEntries hive view company).filterMap r.installAt := by
  rw [companyInstalls, Reader.companyEntries, Reader.listed]
  simp only [bind, Traced.bind]
  cases (r.keys ((⟨hive, view, pythonKey⟩ : Query).child company)).value with
  | none => rfl
  | some tags =>
      dsimp only [Option.getD_some]
      rw [value_gather, List.filterMap_map, List.filterMap_eq_flatMap_toList]
      refine congrArg tags.flatMap (funext fun tag => congrArg Option.toList ?_)
      exact value_readInstall r ⟨hive, view, company, tag⟩

theorem value_viewInstalls (hive : Hive) (view : View) :
    (viewInstalls r hive view).value = (r.viewEntries hive view).filterMap r.installAt := by
  rw [viewInstalls, Reader.viewEntries, Reader.listed]
  simp only [bind, Traced.bind]
  cases (r.keys ⟨hive, view, pythonKey⟩).value with
  | none => rfl
  | some companies =>
      dsimp only [Option.getD_some]
      rw [value_gather, List.filterMap_flatMap]
      exact congrArg (List.flatMap · _) (funext fun company =>
        value_companyInstalls r hive view company)

/-- The search finds the installations of all entries, in the order of the entries. -/
theorem value_gather_places :
    (gather (fun (hive, view) => viewInstalls r hive view) places).value =
      r.found.map Prod.snd := by
  have hfound : r.found.map Prod.snd = r.entries.filterMap r.installAt := by
    rw [Reader.found, List.map_filterMap]
    refine List.filterMap_congr fun e _ => ?_
    rw [Reader.foundAt, Option.map_map]
    exact Option.map_id'
  rw [value_gather, hfound, Reader.entries, places]
  simp only [List.flatMap_cons, List.flatMap_nil, List.append_nil, List.filterMap_append,
    value_viewInstalls, List.append_assoc]

end Search

/-! ### The first of each place -/

section First

variable {α κ : Type} [DecidableEq κ] {key : α → κ} {l : List α} {x z : α}

/-- One more element is kept if its key is new. -/
theorem firsts_concat (key : α → κ) (l : List α) (z : α) :
    firsts key (l ++ [z]) =
      if key z ∈ (firsts key l).map key then firsts key l else firsts key l ++ [z] := by
  have hloop : ∀ done, List.eraseDupsBy.loop (fun a b => key a == key b) (l ++ [z]) done =
      if key z ∈ (List.eraseDupsBy.loop (fun a b => key a == key b) l done).map key then
        List.eraseDupsBy.loop (fun a b => key a == key b) l done
      else List.eraseDupsBy.loop (fun a b => key a == key b) l done ++ [z] := by
    induction l with
    | nil =>
        intro done
        have hseen : (done.any fun b => key z == key b) = true ↔ key z ∈ done.reverse.map key := by
          rw [List.any_eq_true, List.mem_map]
          exact exists_congr fun b => by rw [List.mem_reverse, beq_iff_eq, eq_comm (a := key z)]
        rw [List.nil_append, List.eraseDupsBy.loop, List.eraseDupsBy.loop]
        cases hany : done.any fun b => key z == key b with
        | true =>
            rw [if_pos (hseen.1 hany)]
            rfl
        | false =>
            rw [if_neg fun hmem => Bool.false_ne_true (hany.symm.trans (hseen.2 hmem)),
              ← List.reverse_cons]
            rfl
    | cons a l ih =>
        intro done
        rw [List.cons_append, List.eraseDupsBy.loop, List.eraseDupsBy.loop]
        cases done.any fun b => key a == key b with
        | true => exact ih done
        | false => exact ih (a :: done)
  exact hloop []

theorem key_mem_firsts {k : κ} : k ∈ (firsts key l).map key ↔ k ∈ l.map key := by
  induction l using List.reverseRecOn with
  | nil => rfl
  | append_singleton l z ih =>
      rw [firsts_concat, List.map_append, List.mem_append, ← ih, List.map_singleton,
        List.mem_singleton]
      split
      case isTrue h =>
        constructor
        · exact .inl
        · rintro (hk | rfl)
          · exact hk
          · exact h
      case isFalse => rw [List.map_append, List.mem_append, List.map_singleton, List.mem_singleton]

theorem mem_firsts_concat :
    x ∈ firsts key (l ++ [z]) ↔ x ∈ firsts key l ∨ x = z ∧ key z ∉ l.map key := by
  rw [firsts_concat]
  split
  case isTrue h => simp [key_mem_firsts.1 h]
  case isFalse h =>
    rw [List.mem_append, List.mem_singleton, and_iff_left fun hz => h (key_mem_firsts.2 hz)]

theorem mem_of_mem_firsts (h : x ∈ firsts key l) : x ∈ l := by
  induction l using List.reverseRecOn with
  | nil => exact h
  | append_singleton l z ih =>
      rcases mem_firsts_concat.1 h with h | ⟨rfl, -⟩
      · exact List.mem_append_left _ (ih h)
      · exact List.mem_append_right _ List.mem_cons_self

/-- Taking other elements out of the list leaves a first element the first of its key. -/
theorem mem_firsts_filter {p : α → Bool} (h : x ∈ firsts key l) (hx : p x = true) :
    x ∈ firsts key (l.filter p) := by
  induction l using List.reverseRecOn with
  | nil => exact h
  | append_singleton l z ih =>
      cases hz : p z with
      | true =>
          have hfilter : (l ++ [z]).filter p = l.filter p ++ [z] := by simp [hz]
          rw [hfilter, mem_firsts_concat]
          rcases mem_firsts_concat.1 h with h | ⟨rfl, hnew⟩
          · exact .inl (ih h)
          · exact .inr ⟨rfl, fun hmem => hnew (List.map_subset key List.filter_sublist.subset hmem)⟩
      | false =>
          have hfilter : (l ++ [z]).filter p = l.filter p := by simp [hz]
          rw [hfilter]
          rcases mem_firsts_concat.1 h with h | ⟨rfl, -⟩
          · exact ih h
          · rw [hx] at hz
            cases hz

/-- An element that becomes the first of its key when others are taken out comes after one of
them. -/
theorem of_mem_firsts_filter {p : α → Bool} (h : x ∈ firsts key (l.filter p)) :
    x ∈ firsts key l ∨ ∃ y ∈ firsts key l, p y = false ∧ key y = key x ∧ [y, x].Sublist l := by
  induction l using List.reverseRecOn with
  | nil => exact .inl h
  | append_singleton l z ih =>
      -- what was known of the shorter list holds of the longer one
      have hmore : x ∈ firsts key (l.filter p) → x ∈ firsts key (l ++ [z]) ∨
          ∃ y ∈ firsts key (l ++ [z]), p y = false ∧ key y = key x ∧ [y, x].Sublist (l ++ [z]) := by
        intro hx
        rcases ih hx with hx | ⟨y, hy, hpy, hkey, hlater⟩
        · exact .inl (mem_firsts_concat.2 (.inl hx))
        · exact .inr ⟨y, mem_firsts_concat.2 (.inl hy), hpy, hkey,
            hlater.trans (List.sublist_append_left _ _)⟩
      cases hz : p z with
      | false =>
          have hfilter : (l ++ [z]).filter p = l.filter p := by simp [hz]
          exact hmore (hfilter ▸ h)
      | true =>
          have hfilter : (l ++ [z]).filter p = l.filter p ++ [z] := by simp [hz]
          rw [hfilter] at h
          rcases mem_firsts_concat.1 h with h | ⟨rfl, hnew⟩
          · exact hmore h
          · by_cases hold : key x ∈ l.map key
            · -- the first of its key is not among those that stay
              obtain ⟨y, hy, hkey⟩ := List.mem_map.1 (key_mem_firsts.2 hold)
              have hyl := mem_of_mem_firsts hy
              have hpy : p y = false := by
                by_contra hpy
                rw [Bool.not_eq_false] at hpy
                exact hnew (List.mem_map.2 ⟨y, List.mem_filter.2 ⟨hyl, hpy⟩, hkey⟩)
              have hlater : ([y] ++ [x]).Sublist (l ++ [x]) :=
                (List.singleton_sublist.2 hyl).append (List.Sublist.refl [x])
              exact .inr ⟨y, mem_firsts_concat.2 (.inl hy), hpy, hkey, hlater⟩
            · exact .inl (mem_firsts_concat.2 (.inr ⟨rfl, hold⟩))

end First

/-- The search keeps the first installation for each place. -/
theorem firstPerExecutable_map (found : List (Entry × Install)) :
    firstPerExecutable (found.map Prod.snd) = (firsts (·.2.executable.key) found).map Prod.snd := by
  induction found using List.reverseRecOn with
  | nil => rfl
  | append_singleton found x ih =>
      have hstep : firstPerExecutable ((found ++ [x]).map Prod.snd) =
          if (firstPerExecutable (found.map Prod.snd)).any
            (·.executable.samePlace x.2.executable) then
            firstPerExecutable (found.map Prod.snd)
          else firstPerExecutable (found.map Prod.snd) ++ [x.2] := by
        rw [List.map_append, firstPerExecutable, List.foldl_append]
        rfl
      have hseen : ((firsts (·.2.executable.key) found).map Prod.snd).any
        (·.executable.samePlace x.2.executable) = true ↔
          x.2.executable.key ∈ (firsts (·.2.executable.key) found).map (·.2.executable.key) := by
        rw [List.any_map, List.any_eq_true, List.mem_map]
        exact exists_congr fun y => by rw [Function.comp_apply, Path.samePlace_iff]
      rw [hstep, ih, firsts_concat]
      by_cases hold : x.2.executable.key ∈ (firsts (·.2.executable.key) found).map
        (·.2.executable.key)
      · rw [if_pos hold, if_pos (hseen.2 hold)]
      · rw [if_neg hold, if_neg (hold ∘ hseen.1), List.map_append, List.map_singleton]

/-! ### Reads that fail -/

namespace Reader

variable (r : Reader) (denied : Read → Bool)

theorem listed_denying (q : Query) :
    (r.denying denied).listed q = if denied (.keys q) then [] else r.listed q := by
  rw [listed, denying]
  dsimp only
  split <;> rfl

theorem companyEntries_denying (hive : Hive) (view : View) (company : String) :
    (r.denying denied).companyEntries hive view company =
      (r.companyEntries hive view company).filter fun e => !denied (.keys e.companyKey) := by
  rw [companyEntries, companyEntries, listed_denying, List.filter_map]
  cases h : denied (.keys ((⟨hive, view, pythonKey⟩ : Query).child company)) with
  | true => simp [Function.comp_def, Entry.companyKey, Entry.root, h]
  | false => simp [Function.comp_def, Entry.companyKey, Entry.root, h]

theorem viewEntries_denying (hive : Hive) (view : View) :
    (r.denying denied).viewEntries hive view =
      (r.viewEntries hive view).filter fun e =>
        !(denied (.keys e.root) || denied (.keys e.companyKey)) := by
  have hroot : ∀ company, ∀ e ∈ r.companyEntries hive view company,
      e.root = ⟨hive, view, pythonKey⟩ := by
    intro company e he
    obtain ⟨tag, -, rfl⟩ := List.mem_map.1 he
    rfl
  rw [viewEntries, viewEntries, listed_denying, List.filter_flatMap]
  cases hdenied : denied (.keys ⟨hive, view, pythonKey⟩) with
  | true =>
      -- no entry of the view is left
      rw [if_pos rfl, List.filter_nil, List.flatMap_nil, eq_comm, List.flatMap_eq_nil_iff]
      intro company _
      rw [List.filter_eq_nil_iff]
      intro e he
      simp [hroot company e he, hdenied]
  | false =>
      rw [if_neg Bool.false_ne_true]
      refine congrArg (List.flatMap · _) (funext fun company => ?_)
      rw [companyEntries_denying]
      refine List.filter_congr fun e he => ?_
      rw [hroot company e he, hdenied, Bool.false_or]

theorem entries_denying :
    (r.denying denied).entries = r.entries.filter fun e =>
      !(denied (.keys e.root) || denied (.keys e.companyKey)) := by
  simp only [entries, List.flatMap_cons, List.flatMap_nil, List.filter_append, List.filter_nil,
    viewEntries_denying]

theorem foundAt_denying (e : Entry) :
    (r.denying denied).foundAt e =
      if denied (.values e.key) || denied (.values (e.key.child "InstallPath")) then
        none
      else r.foundAt e := by
  rw [foundAt, foundAt, installAt, installAt, denying]
  dsimp only
  cases denied (.values e.key) with
  | true => rfl
  | false =>
      cases denied (.values (e.key.child "InstallPath")) with
      | true =>
          rw [if_pos rfl, if_neg Bool.false_ne_true, Bool.false_or, if_pos rfl]
          cases (r.values e.key).value <;> rfl
      | false => rfl

/-- **Failing reads take away the entries that rest on them** and no others. -/
theorem found_denying : (r.denying denied).found = r.found.filter fun x => !x.1.restsOn denied := by
  rw [found, found, entries_denying, List.filterMap_filter, List.filter_filterMap]
  refine List.filterMap_congr fun e _ => ?_
  have hfilter : (r.foundAt e).filter (fun x => !x.1.restsOn denied) =
      if e.restsOn denied then none else r.foundAt e := by
    rw [foundAt]
    cases r.installAt e with
    | none => simp
    | some i => cases h : e.restsOn denied <;> simp [h]
  have hrests : e.restsOn denied = ((denied (.keys e.root) || denied (.keys e.companyKey)) ||
      (denied (.values e.key) || denied (.values (e.key.child "InstallPath")))) := by
    simp [Entry.restsOn, Entry.reads, Bool.or_assoc]
  rw [hfilter, hrests, foundAt_denying]
  cases denied (.keys e.root) || denied (.keys e.companyKey) with
  | true => rfl
  | false => rfl

end Reader

/-- **The installations are the first entries.** The search goes through the entries in order, keeps
those whose values describe an installation, and of these the first for each place of an executable.
Reads that fail take away the entries that rest on them. An entry that rests on none of them stays
if it was kept, and is new only if it comes after an entry for the same place that was kept and is
gone. -/
theorem installs_are_first_entries (r : Reader) :
    (installs r).value = r.kept.map Prod.snd ∧
    (∀ e i, r.installAt e = some i ↔ r.Holds e i) ∧
    ∀ denied : Read → Bool,
      (r.denying denied).found = r.found.filter (fun x => !x.1.restsOn denied) ∧
      (∀ x ∈ r.kept, x.1.restsOn denied = false → x ∈ (r.denying denied).kept) ∧
      ∀ x ∈ (r.denying denied).kept, x ∈ r.kept ∨
        ∃ y ∈ r.kept, y.1.restsOn denied = true ∧ y.2.executable.key = x.2.executable.key ∧
          [y, x].Sublist r.found := by
  refine ⟨?_, fun _ _ => Reader.installAt_eq_some_iff,
    fun denied => ⟨r.found_denying denied, ?_, ?_⟩⟩
  · have hvalue : (installs r).value =
        firstPerExecutable (gather (fun (hive, view) => viewInstalls r hive view) places).value :=
          rfl
    rw [hvalue, value_gather_places, firstPerExecutable_map, Reader.kept]
  · intro x hx hfree
    rw [Reader.kept, r.found_denying denied]
    exact mem_firsts_filter hx (by rw [hfree]; rfl)
  · intro x hx
    rw [Reader.kept, r.found_denying denied] at hx
    rcases of_mem_firsts_filter hx with hx | ⟨y, hy, hgone, hkey, hlater⟩
    · exact .inl hx
    · exact .inr ⟨y, hy, by simpa using hgone, hkey, hlater⟩

/-- The reader of a registry with the given keys and values. What is not there cannot be read. -/
def Reader.ofTables (keys : List (Query × List String)) (values : List (Query × List Value)) :
    Reader where
  keys q := ⟨keys.lookup q, []⟩
  values q := ⟨values.lookup q, []⟩

/-- A registry with four interpreters of one company. The first names its executable. The second has
an empty value for it, and its directory as the default value. The third has only empty values. The
fourth, of the user, is the first one again. -/
def Reader.fourTags : Reader :=
  let machine : Query := ⟨.localMachine, .x86, pythonKey⟩
  let user : Query := ⟨.currentUser, .x64, pythonKey⟩
  let tag (root : Query) (name : String) : Query := (root.child "PythonCore").child name
  ofTables
    [(machine, ["PyLauncher", "PythonCore"]), (machine.child "PythonCore", ["3.9", "3.10", "3.11"]),
      (user, ["PythonCore"]), (user.child "PythonCore", ["3.9-user"])]
    [(tag machine "3.9", [⟨"displayname", "Python 3.9"⟩, ⟨"Version", ""⟩, ⟨"SysVersion", "3.9"⟩]),
      ((tag machine "3.9").child "InstallPath",
        [⟨"", "C:/Py39"⟩, ⟨"ExecutablePath", "C:/Py39/python.exe"⟩]),
      (tag machine "3.10", [⟨"SysArchitecture", "64bit"⟩]),
      ((tag machine "3.10").child "InstallPath", [⟨"ExecutablePath", ""⟩, ⟨"", "C:/Py310"⟩]),
      (tag machine "3.11", []),
      ((tag machine "3.11").child "InstallPath", [⟨"ExecutablePath", ""⟩, ⟨"", ""⟩]),
      (tag user "3.9-user", []),
      ((tag user "3.9-user").child "InstallPath", [⟨"ExecutablePath", "C:/Py39/./python.exe"⟩])]

/-- The first two interpreters are found: the third has no executable, and the fourth is at the
place of the first. If the values of the first cannot be read, the fourth takes its place. -/
theorem installs_are_first_entries_fourTags :
    let first : Install :=
      ⟨"PythonCore", "3.9", ⟨"C:/Py39/python.exe"⟩, some "Python 3.9", some "3.9", none, none⟩
    let second : Install := ⟨"PythonCore", "3.10", ⟨"C:/Py310/python.exe"⟩, none, none,
      none, some "64bit"⟩
    let third : Entry := ⟨.localMachine, .x86, "PythonCore", "3.11"⟩
    let fourth : Install := ⟨"PythonCore", "3.9-user", ⟨"C:/Py39/./python.exe"⟩, none,
      none, none, none⟩
    let denied (read : Read) : Bool :=
      read == .values ⟨.localMachine, .x86, "SOFTWARE\\Python\\PythonCore\\3.9"⟩
    (installs .fourTags).value = [first, second] ∧
      Reader.fourTags.Holds ⟨.localMachine, .x86, "PythonCore", "3.10"⟩ second ∧
      (∀ i, ¬Reader.fourTags.Holds third i) ∧
      (installs (Reader.fourTags.denying denied)).value = [second, fourth] := by
  intro first second third fourth denied
  obtain ⟨hinstalls, hholds, -⟩ := installs_are_first_entries .fourTags
  refine ⟨hinstalls.trans ?_, (hholds _ _).1 ?_, fun i hi => ?_, ?_⟩
  · decide +kernel
  · decide +kernel
  · have hnone : Reader.fourTags.installAt third = none := by decide +kernel
    rw [(hholds third i).2 hi] at hnone
    cases hnone
  · rw [(installs_are_first_entries (Reader.fourTags.denying denied)).1]
    decide +kernel

end EnvDiscovery.Registry
