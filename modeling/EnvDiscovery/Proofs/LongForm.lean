import EnvDiscovery.Proofs.OptionRows
import Mathlib.Data.List.Forall2

/-!
**Command lines in long form.**

A command line is written with its options in long form, the options of the program at any level and
between any others, and a positional argument at the end behind two dashes. Only the order among
options of one name counts. However a command line is written, it is read as what it was.

Main definitions:
* `GlobalOptions.written`, `Subcommand.written`, `Subcommand.operand` — the options of a command
  line and its positional argument;
* `CommandLine.lay`, `CommandLine.Arranges` — a command line with its options before the subcommand,
  after it and at its end, and what such options have to be;
* `CommandLine.paths` — the paths in a command line, none of which may be empty.

Main results:
* `CommandLine.render_eq_lay` — a rendered command line has the options of the program before the
  subcommand;
* `GlobalOptions.ofLevels_of_holds`, `Subcommand.ofMatches?_of_holds` — what is made of the values
  of a row;
* `CommandLine.Arranges.parse_lay` — **every arrangement is read**;
* `CommandLine.written_command_line_is_read` — **what is rendered is read back, wherever the options
  stand**.
-/

namespace EnvDiscovery

/-! ### The options of a command line -/

namespace WrittenOption

variable {α : Type} {o : WrittenOption}

/-- An option of a name for each entry of a list. -/
def each (name : String) (f : α → String) (xs : List α) : List WrittenOption :=
  xs.map fun x => ⟨name, some (f x)⟩

/-- A flag, if it is set. -/
def flag (name : String) (isSet : Bool) : List WrittenOption :=
  if isSet then [⟨name, none⟩] else []

theorem name_of_mem_each {n : String} {f : α → String} {xs : List α} (h : o ∈ each n f xs) :
    o.name = n := by
  obtain ⟨x, -, rfl⟩ := List.mem_map.1 h
  rfl

theorem name_of_mem_flag {n : String} {b : Bool} (h : o ∈ flag n b) : o.name = n := by
  cases b with
  | false => cases h
  | true => rw [List.mem_singleton.1 h]

@[simp] theorem named_each (name n : String) (f : α → String) (xs : List α) :
    named name (each n f xs) = if n = name then each n f xs else [] :=
  named_eq_ite (fun _ => name_of_mem_each) name

@[simp] theorem named_flag (name n : String) (b : Bool) :
    named name (flag n b) = if n = name then flag n b else [] :=
  named_eq_ite (fun _ => name_of_mem_flag) name

@[simp] theorem flatMap_value_each (n : String) (f : α → String) (xs : List α) :
    (each n f xs).flatMap (·.value.toList) = xs.map f := by
  rw [each, List.flatMap_map, List.map_eq_flatMap]
  rfl

@[simp] theorem isEmpty_flag (n : String) (b : Bool) : (flag n b).isEmpty = !b := by
  cases b <;> rfl

theorem length_flag_le (n : String) (b : Bool) : (flag n b).length ≤ 1 := by
  cases b <;> simp [flag]

theorem length_each_toList_le (n : String) (f : α → String) (x : Option α) :
    (each n f x.toList).length ≤ 1 := by
  cases x <;> simp [each]

theorem each_singleton (n : String) (f : α → String) (x : α) : each n f [x] = [⟨n, some (f x)⟩] :=
  rfl

theorem map_text_each (n : String) (f : α → String) (xs : List α) :
    (each n f xs).map text = xs.map fun x => longOption n (f x) := by
  rw [each, List.map_map]
  rfl

theorem map_text_flag (n : String) (b : Bool) : (flag n b).map text = longFlag n b := by
  cases b <;> rfl

end WrittenOption

open WrittenOption

/-- The names of the options that are allowed at every level. -/
def Argument.globalNames : List String :=
  globals.map (·.name)

/-- The options that are allowed at every level, with their values. -/
def GlobalOptions.written (o : GlobalOptions) : List WrittenOption :=
  flag "verbose" o.verbose ++ flag "quiet" o.quiet ++ each "config" Path.text o.config.toList ++
    each "color" id o.color.toList

namespace Subcommand

/-- The options of a subcommand, with their values. -/
def written : Subcommand → List WrittenOption
  | list roots sources resource json =>
    each "root" Path.text roots ++ each "source" EnvSource.name sources ++
      each "resource" Path.text resource.toList ++ flag "json" json
  | resolve _ json => flag "json" json
  | watch roots => each "root" Path.text roots
  | cache _ | generateCompletion _ => []

/-- The positional argument of a subcommand, under its name. -/
def operand : Subcommand → List WrittenOption
  | resolve path _ => each "path" Path.text [path]
  | generateCompletion shell => each "shell" Shell.name [shell]
  | list .. | watch _ | cache _ => []

/-- The first word of a subcommand. -/
def word : Subcommand → String
  | list .. => "list"
  | resolve .. => "resolve"
  | watch _ => "watch"
  | cache _ => "cache"
  | generateCompletion _ => "generate-completion"

/-- The word after it, if there is one. -/
def action : Subcommand → List String
  | cache a => [a.name]
  | list .. | resolve .. | watch _ | generateCompletion _ => []

/-- The level on which the options of a subcommand are read. -/
def level : Subcommand → Level
  | list .. => .list
  | resolve .. => .resolve
  | watch _ => .watch
  | cache .clear => .cacheClear
  | cache .info => .cacheInfo
  | generateCompletion _ => .generateCompletion

/-- The paths in a subcommand. -/
def paths : Subcommand → List Path
  | list roots _ resource _ => roots ++ resource.toList
  | resolve path _ => [path]
  | watch roots => roots
  | cache _ | generateCompletion _ => []

end Subcommand

namespace CommandLine

/-- The options of a command line, with their values. -/
def written (c : CommandLine) : List WrittenOption :=
  c.options.written ++ c.command.written

/-- The paths in a command line. -/
def paths (c : CommandLine) : List Path :=
  c.options.config.toList ++ c.command.paths

/-- A command line with some options before the subcommand, some after its first word and some at
its end. A positional argument stands behind two dashes. -/
def lay (c : CommandLine) (outer middle inner : List WrittenOption) : List String :=
  outer.map text ++ c.command.word :: (middle.map text ++ c.command.action ++ inner.map text ++
    c.command.operand.flatMap fun o => "--" :: o.value.toList)

/-- Options arrange those of a command line: under each name they are the same, in the same order,
and before the subcommand only those that are allowed at every level stand. -/
structure Arranges (c : CommandLine) (outer middle inner : List WrittenOption) : Prop where
  same : ∀ name, named name (outer ++ middle ++ inner) = named name c.written
  outside : ∀ o ∈ outer, o.name ∈ Argument.globalNames

/-- It is enough to compare the options under the names that occur. -/
theorem arranges_iff {c : CommandLine} {outer middle inner : List WrittenOption} :
    c.Arranges outer middle inner ↔
      (∀ o ∈ outer ++ middle ++ inner ++ c.written,
        named o.name (outer ++ middle ++ inner) = named o.name c.written) ∧
      ∀ o ∈ outer, o.name ∈ Argument.globalNames := by
  constructor
  · exact fun h => ⟨fun o _ => h.same o.name, h.outside⟩
  · rintro ⟨hsame, houtside⟩
    refine ⟨fun name => ?_, houtside⟩
    by_cases hname : ∃ o ∈ outer ++ middle ++ inner ++ c.written, o.name = name
    · obtain ⟨o, ho, rfl⟩ := hname
      exact hsame o ho
    · have hother : ∀ o ∈ outer ++ middle ++ inner ++ c.written, o.name ≠ name :=
        fun o ho heq => hname ⟨o, ho, heq⟩
      rw [List.forall_mem_append] at hother
      rw [named_eq_nil_iff.2 hother.1, named_eq_nil_iff.2 hother.2]

instance (c : CommandLine) (outer middle inner : List WrittenOption) :
    Decidable (c.Arranges outer middle inner) :=
  decidable_of_iff _ arranges_iff.symm

/-- A rendered command line has the options of the program before the subcommand. -/
theorem render_eq_lay (c : CommandLine) :
    c.render = c.lay c.options.written [] c.command.written := by
  obtain ⟨command, options⟩ := c
  have hoptions : options.arguments = options.written.map text := by
    simp [GlobalOptions.arguments, GlobalOptions.written, map_text_each, map_text_flag]
  rw [render, hoptions]
  cases command <;>
    simp [lay, Subcommand.arguments, Subcommand.written, Subcommand.word, Subcommand.action,
      Subcommand.operand, each_singleton, map_text_each, map_text_flag]

end CommandLine

/-! ### The names of the options -/

/-- The program has options of its names only, -/
theorem GlobalOptions.named_written_of_notMem (options : GlobalOptions) {name : String}
    (h : name ∉ Argument.globalNames) : named name options.written = [] := by
  simp only [Argument.globalNames, Argument.globals, List.map_cons, List.map_nil, List.mem_cons,
    List.not_mem_nil, or_false, not_or] at h
  obtain ⟨hverbose, hquiet, hconfig, hcolor⟩ := h
  simp [written, Ne.symm hverbose, Ne.symm hquiet, Ne.symm hconfig, Ne.symm hcolor]

/-- and a subcommand has none of these names. -/
theorem Subcommand.named_written_of_mem (command : Subcommand) {name : String}
    (h : name ∈ Argument.globalNames) :
    named name command.written = [] := by
  simp only [Argument.globalNames, Argument.globals, List.map_cons, List.map_nil, List.mem_cons,
    List.not_mem_nil, or_false] at h
  rcases h with rfl | rfl | rfl | rfl <;> cases command <;> simp [written]

theorem GlobalOptions.name_mem_of_mem_written {options : GlobalOptions} {o : WrittenOption}
    (h : o ∈ options.written) :
    o.name ∈ Argument.globalNames := by
  refine Decidable.byContradiction fun hname => ?_
  exact named_eq_nil_iff.1 (options.named_written_of_notMem hname) o h rfl

theorem Subcommand.name_notMem_of_mem_written {command : Subcommand} {o : WrittenOption}
    (h : o ∈ command.written) :
    o.name ∉ Argument.globalNames :=
  fun hname => named_eq_nil_iff.1 (command.named_written_of_mem hname) o h rfl

/-- Apart from two, the options of a command line occur once. -/
theorem CommandLine.length_named_written_le (c : CommandLine) {name : String}
    (hroot : name ≠ "root") (hsource : name ≠ "source") : (named name c.written).length ≤ 1 := by
  obtain ⟨command, options⟩ := c
  by_cases hname : name ∈ ["verbose", "quiet", "config", "color", "resource", "json"]
  · simp only [List.mem_cons, List.not_mem_nil, or_false] at hname
    rcases hname with rfl | rfl | rfl | rfl | rfl | rfl <;> cases command <;>
      simp [written, GlobalOptions.written, Subcommand.written, length_flag_le,
        length_each_toList_le]
  · have hnone : named name (written ⟨command, options⟩) = [] := by
      simp only [List.mem_cons, List.not_mem_nil, or_false, not_or] at hname
      cases command <;>
        simp [written, GlobalOptions.written, Subcommand.written, hname, Ne.symm hroot,
          Ne.symm hsource, eq_comm]
    rw [hnone]
    exact Nat.zero_le 1

/-! ### Levels take the options -/

section Takes

variable {l : Level} {a : Argument}

/-- An option that is allowed at every level is found at every level. -/
theorem Level.optionNamed_global (l : Level) (ha : a ∈ Argument.globals) :
    l.optionNamed a.name = some a := by
  have hall : ∀ a ∈ Argument.globals, l.optionNamed a.name = some a := by cases l <;> decide
  exact hall a ha

/-- The two options that may be repeated may be repeated wherever they are found. -/
theorem Level.addValue_of_optionNamed {name : String} (hname : name = "root" ∨ name = "source")
    (h : l.optionNamed name = some a) : a.action = .addValue := by
  have hall : ∀ name ∈ ["root", "source"], (l.optionNamed name).all (·.action = .addValue) =
      true := by
    cases l <;> decide
  have haction := hall name (by simpa using hname)
  rwa [h, Option.all_some, decide_eq_true_eq] at haction

theorem ValueKind.fault?_path {s : String} (h : s ≠ "") : ValueKind.path.fault? s = none := by
  simp [fault?, h]

theorem takes_of_mem_each {α : Type} {n : String} {f : α → String} {xs : List α} {o : WrittenOption}
    (hnamed : l.optionNamed n = some a) (hvalue : a.takesValue = true)
    (hfault : ∀ x ∈ xs, a.kind.fault? (f x) = none) (ho : o ∈ each n f xs) :
    ∃ a, l.optionNamed o.name = some a ∧ a.Takes o := by
  obtain ⟨x, hx, rfl⟩ := List.mem_map.1 ho
  obtain ⟨rfl, -⟩ := Usage.isOptionName_of_optionNamed hnamed
  exact ⟨a, hnamed, .value hvalue (hfault x hx)⟩

theorem takes_of_mem_flag {n : String} {b : Bool} {o : WrittenOption}
    (hnamed : l.optionNamed n = some a) (haction : a.action = .setFlag) (ho : o ∈ flag n b) :
    ∃ a, l.optionNamed o.name = some a ∧ a.Takes o := by
  cases b with
  | false => cases ho
  | true =>
      obtain rfl := List.mem_singleton.1 ho
      obtain ⟨rfl, -⟩ := Usage.isOptionName_of_optionNamed hnamed
      exact ⟨a, hnamed, .flag haction⟩

/-- Every level takes the options that are allowed at every level. -/
theorem GlobalOptions.takes_of_mem_written {options : GlobalOptions}
    (hpaths : ∀ p ∈ options.config.toList, p.text ≠ "") (l : Level) {o : WrittenOption}
    (h : o ∈ options.written) :
    ∃ a, l.optionNamed o.name = some a ∧ a.Takes o := by
  have hglobal (a : Argument) (ha : a ∈ Argument.globals) := l.optionNamed_global ha
  simp only [Argument.globals, List.forall_mem_cons, List.not_mem_nil, false_imp_iff,
    implies_true] at hglobal
  obtain ⟨hverbose, hquiet, hconfig, hcolor, -⟩ := hglobal
  simp only [written, List.mem_append] at h
  rcases h with ((h | h) | h) | h
  · exact takes_of_mem_flag hverbose rfl h
  · exact takes_of_mem_flag hquiet rfl h
  · exact takes_of_mem_each hconfig rfl (fun p hp => ValueKind.fault?_path (hpaths p hp)) h
  · exact takes_of_mem_each hcolor rfl (fun _ _ => rfl) h

theorem EnvSource.parse_name (s : EnvSource) : EnvSource.parse s.name = some s := by
  cases s <;> decide

theorem Shell.parse_name (s : Shell) : Shell.parse s.name = some s := by
  cases s <;> decide

/-- The level of a subcommand takes its options. -/
theorem Subcommand.takes_of_mem_written {command : Subcommand}
    (hpaths : ∀ p ∈ command.paths, p.text ≠ "") {o : WrittenOption} (h : o ∈ command.written) :
    ∃ a, command.level.optionNamed o.name = some a ∧ a.Takes o := by
  cases command with
  | list roots sources resource json =>
      simp only [paths, List.forall_mem_append] at hpaths
      simp only [written, List.mem_append] at h
      rcases h with ((h | h) | h) | h
      · exact takes_of_mem_each (l := .list) (a := .repeated "root" .path) (by decide) rfl
          (fun p hp => ValueKind.fault?_path (hpaths.1 p hp)) h
      · exact takes_of_mem_each (l := .list) (a := .repeated "source" .source) (by decide) rfl
          (fun s _ => by simp [Argument.repeated, ValueKind.fault?, s.parse_name]) h
      · exact takes_of_mem_each (l := .list) (a := .single "resource" .path) (by decide) rfl
          (fun p hp => ValueKind.fault?_path (hpaths.2 p hp)) h
      · exact takes_of_mem_flag (l := .list) (a := .flag "json") (by decide) rfl h
  | resolve path json =>
      exact takes_of_mem_flag (l := .resolve) (a := .flag "json") (by decide) rfl h
  | watch roots =>
      exact takes_of_mem_each (l := .watch) (a := .repeated "root" .path) (by decide) rfl
        (fun p hp => ValueKind.fault?_path (hpaths p hp)) h
  | cache | generateCompletion => cases h

end Takes

/-! ### Rows of an arrangement -/

namespace CommandLine.Arranges

variable {c : CommandLine} {outer middle inner row : List WrittenOption}

theorem mem_written (h : c.Arranges outer middle inner) {o : WrittenOption}
    (ho : o ∈ outer ++ middle ++ inner) :
    o ∈ c.written := by
  have hnamed : o ∈ named o.name (outer ++ middle ++ inner) := mem_named.2 ⟨ho, rfl⟩
  rw [h.same o.name] at hnamed
  exact (mem_named.1 hnamed).1

/-- A level reads every part of an arrangement in which it finds the options of the subcommand. -/
theorem reads (h : c.Arranges outer middle inner) (hpaths : ∀ p ∈ c.paths, p.text ≠ "")
    (hrow : row.Sublist (outer ++ middle ++ inner)) {l : Level}
    (hlevel : ∀ o ∈ row, o ∈ c.command.written → l = c.command.level) : l.Reads row := by
  simp only [paths, List.forall_mem_append] at hpaths
  constructor
  · intro o ho
    rcases List.mem_append.1 (h.mem_written (hrow.subset ho)) with hwritten | hwritten
    · exact GlobalOptions.takes_of_mem_written hpaths.1 l hwritten
    · rw [hlevel o ho hwritten]
      exact Subcommand.takes_of_mem_written hpaths.2 hwritten
  · intro o _ a hnamed
    by_cases hname : o.name = "root" ∨ o.name = "source"
    · exact .inl (Level.addValue_of_optionNamed hname hnamed)
    · rw [not_or] at hname
      refine .inr (Nat.le_trans ?_ (c.length_named_written_le hname.1 hname.2))
      rw [← h.same]
      exact (hrow.filter _).length_le

/-- Options of the subcommand do not stand before it. -/
theorem notMem_outer (h : c.Arranges outer middle inner) {o : WrittenOption} (ho : o ∈ outer) :
    o ∉ c.command.written :=
  fun hwritten => Subcommand.name_notMem_of_mem_written hwritten (h.outside o ho)

end CommandLine.Arranges

/-! ### The levels of an arrangement -/

open Usage

/-- A level does not find the positional argument of a subcommand among the options that it
reads. -/
theorem Level.Reads.named_eq_nil {l : Level} {row : List WrittenOption} (hreads : l.Reads row)
    {name : String} (hnone : l.optionNamed name = none) : named name row = [] := by
  rw [named_eq_nil_iff]
  rintro o ho rfl
  obtain ⟨a, hnamed, -⟩ := hreads.takes o ho
  cases hnone.symm.trans hnamed

/-- The level of a subcommand reads a row of options and the positional argument behind it. -/
theorem Subcommand.readLevel_level {command : Subcommand}
    (hpaths : ∀ p ∈ command.paths, p.text ≠ "") {row : List WrittenOption}
    (hreads : command.level.Reads row) :
    ∃ m, Matches.Holds m (row ++ command.operand) ∧
      readLevel command.level .start (row.map text ++ command.operand.flatMap fun o =>
        "--" :: o.value.toList) =
        .ok [(command.level, m)] := by
  cases command with
  | list | watch =>
      rw [operand, List.flatMap_nil, List.append_nil, List.append_nil]
      exact readLevel_leaf hreads rfl rfl
  | resolve path json =>
      have hpath : ValueKind.path.fault? path.text = none :=
        ValueKind.fault?_path (hpaths path (List.mem_singleton_self _))
      exact readLevel_positional (a := .single "path" .path) hreads rfl rfl (.value rfl hpath)
        (hreads.named_eq_nil (l := .resolve) (by decide))
  | cache action =>
      rw [operand, List.flatMap_nil, List.append_nil, List.append_nil]
      cases action <;> exact readLevel_leaf hreads rfl rfl
  | generateCompletion shell =>
      have hshell : ValueKind.shell.fault? shell.name = none := by
        simp [ValueKind.fault?, shell.parse_name]
      exact readLevel_positional (a := .single "shell" .shell) hreads rfl rfl (.value rfl hshell)
        (hreads.named_eq_nil (l := .generateCompletion) (by decide))

/-! ### What is made of the values -/

namespace Usage.Matches.Holds

variable {m : Matches} {os : List WrittenOption}

theorem values_eq (hm : m.Holds os) (name : String) :
    m.values name = WrittenOption.values name os := by
  rw [Matches.values, hm name, getD_given]

theorem has_eq (hm : m.Holds os) (name : String) : m.has name = !(named name os).isEmpty := by
  rw [Matches.has, hm name, given]
  cases (named name os).isEmpty <;> rfl

end Usage.Matches.Holds

section Levels

variable {levels : List (Level × Matches)} {rows : List (List WrittenOption)}

/-- Whether a flag occurs at any level. -/
theorem any_has_of_holds (h : List.Forall₂ (fun x os => Matches.Holds x.2 os) levels rows)
    (name : String) :
    levels.any (·.2.has name) = !(named name rows.flatten).isEmpty := by
  induction h with
  | nil => rfl
  | @cons x os levels rows hm _ ih =>
      rw [List.any_cons, ih, hm.has_eq, List.flatten_cons, named_append]
      cases named name os <;> rfl

/-- The last value under a name over all levels. -/
theorem foldl_getLast?_of_holds (h : List.Forall₂ (fun x os => Matches.Holds x.2 os) levels rows)
    (name : String) (v : Option String) :
    levels.foldl (fun v x => (x.2.values name).getLast? <|> v) v =
      ((WrittenOption.values name rows.flatten).getLast? <|> v) := by
  induction h generalizing v with
  | nil => rfl
  | @cons x os levels rows hm _ ih =>
      rw [List.foldl_cons, ih, hm.values_eq, List.flatten_cons, values_append, List.getLast?_append]
      cases (WrittenOption.values name rows.flatten).getLast? <;> rfl

theorem GlobalOptions.values_written (options : GlobalOptions) :
    WrittenOption.values "config" options.written = options.config.toList.map Path.text ∧
      WrittenOption.values "color" options.written = options.color.toList := by
  constructor <;> simp [WrittenOption.values, GlobalOptions.written]

/-- The options are what the rows of all levels say together. -/
theorem GlobalOptions.ofLevels_of_holds {options : GlobalOptions}
    (h : List.Forall₂ (fun x os => Matches.Holds x.2 os) levels rows)
    (hrows : ∀ name ∈ Argument.globalNames, named name rows.flatten = named name options.written) :
    GlobalOptions.ofLevels levels = options := by
  have hlast (name : String) (hname : name ∈ Argument.globalNames) :
      levels.foldl (fun v x => (x.2.values name).getLast? <|> v) none =
        (WrittenOption.values name options.written).getLast? := by
    rw [foldl_getLast?_of_holds h, values_congr (hrows name hname)]
    cases (WrittenOption.values name options.written).getLast? <;> rfl
  have hhas (name : String) (hname : name ∈ Argument.globalNames) :
      levels.any (·.2.has name) = !(named name options.written).isEmpty := by
    rw [any_has_of_holds h, hrows name hname]
  obtain ⟨hconfig, hcolor⟩ := options.values_written
  calc GlobalOptions.ofLevels levels
      = ⟨levels.any (·.2.has "verbose"), levels.any (·.2.has "quiet"),
          (levels.foldl (fun v x => (x.2.values "config").getLast? <|> v) none).map Path.mk,
          levels.foldl (fun v x => (x.2.values "color").getLast? <|> v) none⟩ := rfl
    _ = options := by
      rw [hlast "config" (by decide), hlast "color" (by decide), hhas "verbose" (by decide),
        hhas "quiet" (by decide), hconfig, hcolor]
      obtain ⟨verbose, quiet, config, color⟩ := options
      cases config <;> cases color <;> simp [written]

end Levels

theorem Path.mk_comp_text : Path.mk ∘ Path.text = id := rfl

/-- The subcommand is what the row of its level says under the names that are its own. -/
theorem Subcommand.ofMatches?_of_holds {command : Subcommand} {m : Matches}
    {os : List WrittenOption} (hm : m.Holds os)
    (hos : ∀ name ∉ Argument.globalNames, named name os =
      named name (command.written ++ command.operand)) :
    Subcommand.ofMatches? command.level m = some command := by
  have hvalues (name : String) (hname : name ∉ Argument.globalNames) :
      m.values name = (named name (command.written ++ command.operand)).flatMap
        (·.value.toList) := by
    rw [hm.values_eq, WrittenOption.values, hos name hname]
  have hhas (name : String) (hname : name ∉ Argument.globalNames) :
      m.has name = !(named name (command.written ++ command.operand)).isEmpty := by
    rw [hm.has_eq, hos name hname]
  cases command with
  | list roots sources resource json =>
      have hroots : m.paths "root" = roots := by
        rw [Matches.paths, hvalues "root" (by decide)]
        simp [written, operand, Path.mk_comp_text]
      have hsources : (m.values "source").filterMap EnvSource.parse = sources := by
        rw [hvalues "source" (by decide)]
        simp [written, operand, EnvSource.parse_name]
      have hresource : m.path? "resource" = resource := by
        rw [Matches.path?, hvalues "resource" (by decide)]
        cases resource <;> simp [written, operand]
      have hjson : m.has "json" = json := by
        rw [hhas "json" (by decide)]
        simp [written, operand]
      rw [level, ofMatches?, hroots, hsources, hresource, hjson]
  | resolve path json =>
      have hpath : m.path? "path" = some path := by
        rw [Matches.path?, hvalues "path" (by decide)]
        simp [written, operand]
      have hjson : m.has "json" = json := by
        rw [hhas "json" (by decide)]
        simp [written, operand]
      rw [level, ofMatches?, hpath, hjson]
      rfl
  | watch roots =>
      have hroots : m.paths "root" = roots := by
        rw [Matches.paths, hvalues "root" (by decide)]
        simp [written, operand, Path.mk_comp_text]
      rw [level, ofMatches?, hroots]
  | cache action => cases action <;> rfl
  | generateCompletion shell =>
      have hshell : m.values "shell" = [shell.name] := by
        rw [hvalues "shell" (by decide)]
        simp [written, operand]
      rw [level, ofMatches?, hshell, List.getLast?_singleton, Option.bind_some, shell.parse_name]
      rfl

/-! ### Arrangements are read -/

namespace CommandLine

/-- A command line is what its levels say: the options under the names that are allowed everywhere,
and the subcommand under the others at the innermost level. -/
theorem parse_of_levels {c : CommandLine} {args : List String} {levels : List (Level × Matches)}
    {rows : List (List WrittenOption)} {m : Matches} {last : List WrittenOption}
    (hread : readLevel .program .start args = .ok levels)
    (hlevels : List.Forall₂ (fun x os => Matches.Holds x.2 os) levels rows)
    (hrows : ∀ name ∈ Argument.globalNames, named name rows.flatten = named name c.options.written)
    (hinnermost : levels.getLast? = some (c.command.level, m)) (hm : m.Holds last)
    (hlast : ∀ name ∉ Argument.globalNames,
      named name last = named name (c.command.written ++ c.command.operand)) :
    parse args = .ok c := by
  have hcommand := Subcommand.ofMatches?_of_holds hm hlast
  rw [parse, hread]
  dsimp only
  rw [hinnermost, Option.bind_some]
  dsimp only
  rw [hcommand]
  dsimp only
  rw [GlobalOptions.ofLevels_of_holds hlevels hrows]

namespace Arranges

variable {c : CommandLine} {outer middle inner : List WrittenOption} {name : String}

/-- Under the names that are allowed everywhere an arrangement says what the options say. -/
theorem named_of_global (h : c.Arranges outer middle inner) (hname : name ∈ Argument.globalNames) :
    named name (outer ++ middle ++ inner ++ c.command.operand) = named name c.options.written := by
  have hoperand : named name c.command.operand = [] := by
    have hpath : "path" ≠ name := fun heq => absurd (heq ▸ hname) (by decide)
    have hshell : "shell" ≠ name := fun heq => absurd (heq ▸ hname) (by decide)
    cases c.command <;> simp [Subcommand.operand, hpath, hshell]
  rw [named_append, h.same, hoperand, List.append_nil, written, named_append,
    c.command.named_written_of_mem hname, List.append_nil]

/-- Under the other names it says what the subcommand says, after the subcommand. -/
theorem named_of_own (h : c.Arranges outer middle inner) (hname : name ∉ Argument.globalNames) :
    named name (middle ++ inner) = named name c.command.written := by
  have houter : named name outer = [] := by
    rw [named_eq_nil_iff]
    rintro o ho rfl
    exact hname (h.outside o ho)
  calc named name (middle ++ inner)
      = named name (outer ++ (middle ++ inner)) := by
        rw [named_append name outer, houter, List.nil_append]
    _ = named name c.written := by rw [← List.append_assoc, h.same]
    _ = named name c.command.written := by
      rw [written, named_append, c.options.named_written_of_notMem hname, List.nil_append]

theorem reads_outer (h : c.Arranges outer middle inner) (hpaths : ∀ p ∈ c.paths, p.text ≠ "") :
    Level.program.Reads outer :=
  h.reads hpaths (by simp [List.append_assoc]) fun _ ho hwritten =>
    absurd hwritten (h.notMem_outer ho)

/-- A subcommand of one word: the options after it are all read at its level. -/
theorem parse_lay_of_action_eq_nil (h : c.Arranges outer middle inner)
    (hpaths : ∀ p ∈ c.paths, p.text ≠ "") (haction : c.command.action = []) :
    parse (c.lay outer middle inner) = .ok c := by
  have hinside : c.command.level.Reads (middle ++ inner) :=
    h.reads hpaths (by simp [List.append_assoc]) fun _ _ _ => rfl
  obtain ⟨m, hm, hinner⟩ :=
    Subcommand.readLevel_level (fun p hp => hpaths p (List.mem_append_right _ hp)) hinside
  have hsub : Level.program.sub? c.command.word = some c.command.level ∧
      c.command.level ≠ .help := by
    generalize c.command = command at haction ⊢
    cases command with
    | cache => cases haction
    | _ => exact ⟨rfl, nofun⟩
  obtain ⟨m₀, hm₀, hread⟩ := readLevel_subcommand (h.reads_outer hpaths) hsub.1 hsub.2 rfl hinner
  have hlay : c.lay outer middle inner = outer.map text ++ c.command.word ::
      ((middle ++ inner).map text ++ c.command.operand.flatMap fun o =>
        "--" :: o.value.toList) := by
    rw [lay, haction, List.append_nil, List.map_append]
  rw [← hlay] at hread
  refine parse_of_levels hread (.cons hm₀ (.cons hm .nil)) (fun name hname => ?_) rfl hm
    fun name hname => ?_
  · have hrows : [outer, middle ++ inner ++ c.command.operand].flatten =
        outer ++ middle ++ inner ++ c.command.operand := by simp
    rw [hrows, h.named_of_global hname]
  · rw [named_append name (middle ++ inner), h.named_of_own hname, ← named_append]

/-- A subcommand of two words: the options between them are read at the level of the first. -/
theorem parse_lay_of_cache {action : CacheAction} {options : GlobalOptions}
    (h : Arranges ⟨.cache action, options⟩ outer middle inner)
    (hpaths : ∀ p ∈ paths ⟨.cache action, options⟩, p.text ≠ "") :
    parse (lay ⟨.cache action, options⟩ outer middle inner) = .ok ⟨.cache action, options⟩ := by
  have hmiddle : Level.cache.Reads middle := h.reads hpaths (by simp [List.append_assoc]) nofun
  have hinside : (Subcommand.cache action).level.Reads inner := h.reads hpaths (by simp) nofun
  obtain ⟨m, hm, hinner⟩ :=
    Subcommand.readLevel_level (fun p hp => hpaths p (List.mem_append_right _ hp)) hinside
  have hsub : Level.cache.sub? action.name = some (Subcommand.cache action).level ∧
      (Subcommand.cache action).level ≠ .help := by
    cases action <;> exact ⟨rfl, nofun⟩
  obtain ⟨m₁, hm₁, hcache⟩ := readLevel_subcommand hmiddle hsub.1 hsub.2 rfl hinner
  have hword : Level.program.sub? "cache" = some .cache := rfl
  obtain ⟨m₀, hm₀, hread⟩ := readLevel_subcommand (h.reads_outer hpaths) hword nofun rfl hcache
  have hlay : lay ⟨.cache action, options⟩ outer middle inner =
      outer.map text ++ "cache" :: (middle.map text ++ action.name :: (inner.map text ++
        (Subcommand.cache action).operand.flatMap fun o => "--" :: o.value.toList)) := by
    simp [lay, Subcommand.word, Subcommand.action]
  rw [← hlay] at hread
  refine parse_of_levels hread (.cons hm₀ (.cons hm₁ (.cons hm .nil))) (fun name hname => ?_) rfl hm
    fun name hname => ?_
  · have hrows : [outer, middle, inner ++ (Subcommand.cache action).operand].flatten =
        outer ++ middle ++ inner ++ (Subcommand.cache action).operand := by simp
    rw [hrows]
    exact h.named_of_global hname
  · have hnone : named name middle ++ named name inner = [] :=
      (named_append ..).symm.trans (h.named_of_own hname)
    rw [named_append, (List.append_eq_nil_iff.1 hnone).2]
    rfl

/-- **Every arrangement is read** as the command line that it arranges. -/
theorem parse_lay (h : c.Arranges outer middle inner) (hpaths : ∀ p ∈ c.paths, p.text ≠ "") :
    parse (c.lay outer middle inner) = .ok c := by
  obtain ⟨command, options⟩ := c
  cases command with
  | cache => exact h.parse_lay_of_cache hpaths
  | _ => exact h.parse_lay_of_action_eq_nil hpaths rfl

/-- The options of the program may stand before the subcommand, -/
theorem of_before (c : CommandLine) : c.Arranges c.options.written [] c.command.written where
  same _ := by rw [List.append_nil, written]
  outside _ ho := GlobalOptions.name_mem_of_mem_written ho

/-- right after its first word, -/
theorem of_between (c : CommandLine) : c.Arranges [] c.options.written c.command.written where
  same _ := by rw [List.nil_append, written]
  outside := nofun

/-- or at its end: no name belongs both to the program and to the subcommand. -/
theorem of_after (c : CommandLine) : c.Arranges [] [] (c.command.written ++ c.options.written) where
  same name := by
    rw [List.nil_append, List.nil_append, written, named_append, named_append]
    by_cases hname : name ∈ Argument.globalNames
    · rw [c.command.named_written_of_mem hname, List.nil_append, List.append_nil]
    · rw [c.options.named_written_of_notMem hname, List.nil_append, List.append_nil]
  outside := nofun

end Arranges

/-- **What is rendered is read back, wherever the options stand.** Every command line whose paths
are not empty is read back from its rendering, in which the options of the program stand before the
subcommand. The same is read if they stand right after the first word of the subcommand or at its
end, and more generally if each option stands at any place at which it is allowed, as long as
options of one name keep their order. Values may look like anything. -/
theorem written_command_line_is_read (c : CommandLine) (hpaths : ∀ p ∈ c.paths, p.text ≠ "") :
    parse c.render = .ok c ∧
      parse (c.lay [] c.options.written c.command.written) = .ok c ∧
      parse (c.lay [] [] (c.command.written ++ c.options.written)) = .ok c ∧
      ∀ outer middle inner, c.Arranges outer middle inner →
        parse (c.lay outer middle inner) = .ok c := by
  refine ⟨?_, (Arranges.of_between c).parse_lay hpaths, (Arranges.of_after c).parse_lay hpaths,
    fun outer middle inner h => h.parse_lay hpaths⟩
  rw [render_eq_lay]
  exact (Arranges.of_before c).parse_lay hpaths

/-- Values that look like options and like a subcommand, with the options of the program in three
places. -/
theorem written_command_line_is_read_list :
    let c : CommandLine :=
      ⟨.list [⟨"--json"⟩, ⟨"a=b"⟩] [.conda] none true, ⟨true, false, some ⟨"list"⟩, none⟩⟩
    (∀ p ∈ c.paths, p.text ≠ "") ∧
      parse ["--verbose", "--config=list", "list", "--root=--json", "--root=a=b", "--source=conda",
        "--json"] = .ok c ∧
      parse ["list", "--root=--json", "--root=a=b", "--source=conda", "--json", "--verbose",
        "--config=list"] = .ok c ∧
      parse ["--config=list", "list", "--root=--json", "--json", "--verbose", "--root=a=b",
        "--source=conda"] =
        .ok c := by
  intro c
  have hpaths : ∀ p ∈ c.paths, p.text ≠ "" := by decide
  obtain ⟨hbefore, -, hafter, harranged⟩ := written_command_line_is_read c hpaths
  have hmixed : c.Arranges [⟨"config", some "list"⟩] []
      [⟨"root", some "--json"⟩, ⟨"json", none⟩, ⟨"verbose", none⟩, ⟨"root", some "a=b"⟩,
        ⟨"source", some "conda"⟩] := by
    decide
  exact ⟨hpaths, hbefore, hafter, harranged _ _ _ hmixed⟩

end CommandLine

end EnvDiscovery
