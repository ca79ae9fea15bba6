import EnvDiscovery.CommandLine.Parser
import EnvDiscovery.CommandLine.Render
import EnvDiscovery.Proofs.Store

/-!
**Reading options in long form.**

An option in long form carries its value, so a reader that meets a row of them never waits for one:
after each option it knows the options so far, and nothing else. What it knows is described by the
options themselves: under each name stand the values of the options of that name, in order.

Main definitions:
* `WrittenOption` — an option in long form, with `WrittenOption.named`, `WrittenOption.values` and
  `WrittenOption.given` for what a row says under a name;
* `Usage.Matches.Holds` — the values that were taken over are those of a row;
* `Argument.Takes`, `Level.Reads` — an argument takes an option, and a level reads a row.

Main results:
* `Usage.splitLong_text` — an option is taken apart into its name and its value;
* `Usage.take_of_takes` — **one option**: it is taken over behind those before it;
* `Usage.readLevel_row` — **a row of options**, at any level and before anything;
* `Usage.readLevel_subcommand`, `Usage.readLevel_leaf`, `Usage.readLevel_positional` — a row before
  a subcommand, one at the end, and one before a positional argument.
-/

namespace EnvDiscovery

/-! ### Splitting at a sign -/

theorem Text.splitFirst?_of_notMem {p : Char → Bool} {cs : List Char} (h : ∀ c ∈ cs, p c = false) :
    splitFirst? p cs = none := by
  induction cs with
  | nil => rfl
  | cons c cs ih =>
      rw [List.forall_mem_cons] at h
      rw [splitFirst?, h.1, ih h.2]
      rfl

theorem Text.splitFirst?_append {p : Char → Bool} {cs rest : List Char} {c : Char}
    (h : ∀ c ∈ cs, p c = false) (hc : p c = true) :
    splitFirst? p (cs ++ c :: rest) = some (cs, rest) := by
  induction cs with
  | nil => rw [List.nil_append, splitFirst?, hc, if_pos rfl]
  | cons d cs ih =>
      rw [List.forall_mem_cons] at h
      rw [List.cons_append, splitFirst?, h.1, ih h.2]
      rfl

/-! ### What a row says under a name -/

/-- An option in long form: its name, and the value that is attached to it, if any. -/
structure WrittenOption where
  name : String
  value : Option String
deriving DecidableEq, Repr

namespace WrittenOption

variable {o : WrittenOption} {os os' : List WrittenOption} {name : String}

/-- The option as an argument. -/
def text (o : WrittenOption) : String :=
  o.value.elim ("--" ++ o.name) (longOption o.name)

/-- The options of a name. -/
def named (name : String) (os : List WrittenOption) : List WrittenOption :=
  os.filter (·.name == name)

/-- The values of the options of a name. -/
def values (name : String) (os : List WrittenOption) : List String :=
  (named name os).flatMap (·.value.toList)

/-- What a row says under a name: nothing if the name does not occur, else its values. -/
def given (os : List WrittenOption) (name : String) : Option (List String) :=
  if (named name os).isEmpty then none else some (values name os)

@[simp] theorem named_nil (name : String) : named name [] = [] := rfl

@[simp] theorem named_append (name : String) (os os' : List WrittenOption) :
    named name (os ++ os') = named name os ++ named name os' :=
  List.filter_append ..

theorem mem_named : o ∈ named name os ↔ o ∈ os ∧ o.name = name := by
  rw [named, List.mem_filter, beq_iff_eq]

theorem named_eq_nil_iff : named name os = [] ↔ ∀ o ∈ os, o.name ≠ name := by
  simp [named, List.filter_eq_nil_iff]

theorem named_singleton_self (o : WrittenOption) : named o.name [o] = [o] := by
  simp [named]

theorem named_singleton_of_ne (h : o.name ≠ name) : named name [o] = [] := by
  simpa [named_eq_nil_iff] using h

/-- Options that all have one name are there under that name only. -/
theorem named_eq_ite {n : String} (h : ∀ o ∈ os, o.name = n) (name : String) :
    named name os = if n = name then os else [] := by
  split
  case isTrue hn => exact List.filter_eq_self.2 fun o ho => by rw [h o ho, hn, beq_self_eq_true]
  case isFalse hn => exact named_eq_nil_iff.2 fun o ho => by rwa [h o ho]

theorem values_append (name : String) (os os' : List WrittenOption) :
    values name (os ++ os') = values name os ++ values name os' := by
  simp only [values, named_append, List.flatMap_append]

theorem values_congr (h : named name os = named name os') : values name os = values name os' := by
  rw [values, values, h]

theorem given_congr (h : named name os = named name os') : given os name = given os' name := by
  rw [given, given, h, values_congr h]

theorem given_eq_none_iff : given os name = none ↔ named name os = [] := by
  rw [given, ← List.isEmpty_iff]
  split <;> simp_all

theorem getD_given (os : List WrittenOption) (name : String) :
    (given os name).getD [] = values name os := by
  rw [given]
  split
  case isTrue h => rw [values, List.isEmpty_iff.1 h]; rfl
  case isFalse => rfl

/-- One more option adds its value under its name, -/
theorem given_concat_self (os : List WrittenOption) (o : WrittenOption) :
    given (os ++ [o]) o.name = some ((given os o.name).getD [] ++ o.value.toList) := by
  rw [getD_given, given, values, named_append, named_singleton_self, if_neg (by simp),
    List.flatMap_append, List.flatMap_singleton, ← values]

/-- and nothing under the other names. -/
theorem given_concat_of_ne (h : o.name ≠ name) : given (os ++ [o]) name = given os name := by
  refine given_congr ?_
  rw [named_append, named_singleton_of_ne h, List.append_nil]

end WrittenOption

open WrittenOption

/-! ### An argument takes an option -/

/-- An argument takes an option of its name: a flag one without a value, any other one with a value
of its kind. -/
inductive Argument.Takes (a : Argument) : WrittenOption → Prop where
  | flag (haction : a.action = .setFlag) : a.Takes ⟨a.name, none⟩
  | value {v : String} (hvalue : a.takesValue = true)
      (hfault : a.kind.fault? v = none) : a.Takes ⟨a.name, some v⟩

/-- A level reads a row: an argument of the level takes each option, and only one that may be
repeated takes two. -/
structure Level.Reads (l : Level) (os : List WrittenOption) : Prop where
  takes : ∀ o ∈ os, ∃ a, l.optionNamed o.name = some a ∧ a.Takes o
  once : ∀ o ∈ os, ∀ a, l.optionNamed o.name = some a → a.action = .addValue ∨
    (named o.name os).length ≤ 1

namespace Usage

variable {l sub : Level} {a : Argument} {o : WrittenOption} {os before row : List WrittenOption}
  {m : Matches}
  {word : String} {rest : List String}

/-- The values that were taken over are those of a row. -/
def Matches.Holds (m : Matches) (os : List WrittenOption) : Prop :=
  ∀ name, m.lookup name = given os name

theorem Matches.holds_nil : Matches.Holds [] [] := fun _ => rfl

/-- Putting the values of an option first, and leaving those of the other names as they are. -/
theorem Matches.Holds.concat (hm : m.Holds os) (o : WrittenOption) (m' : Matches)
    (hothers : ∀ name, o.name ≠ name → m'.lookup name = m.lookup name) :
    Matches.Holds ((o.name, (m.lookup o.name).getD [] ++ o.value.toList) :: m') (os ++ [o]) := by
  intro name
  rw [List.lookup_cons]
  by_cases hname : o.name = name
  · subst hname
    rw [beq_self_eq_true, given_concat_self, ← hm o.name]
  · have hne : (name == o.name) = false := beq_false_of_ne (Ne.symm hname)
    rw [hne, given_concat_of_ne hname, ← hm name]
    exact hothers name hname

/-- **One option.** An argument that takes an option, and has not been met or may be repeated, is
taken over: the values are then those of the row with the option at its end. -/
theorem take_of_takes (hm : m.Holds os) (htakes : a.Takes o)
    (hnew : a.action = .addValue ∨ named o.name os = []) :
    ∃ m', take m a o.value.toList = .ok m' ∧ m'.Holds (os ++ [o]) := by
  have hfresh (h : a.action ≠ .addValue) : m.lookup o.name = none := by
    rw [hm, given_eq_none_iff]
    exact hnew.resolve_left h
  cases htakes with
  | flag haction =>
      have hlookup : m.lookup a.name = none := hfresh (by rw [haction]; nofun)
      refine ⟨(a.name, []) :: m, by simp [take, haction, hlookup], ?_⟩
      have hconcat := hm.concat ⟨a.name, none⟩ m fun _ _ => rfl
      rwa [hlookup] at hconcat
  | @value v hvalue hfault =>
      have hothers : ∀ name, a.name ≠ name → (m.filter (·.1 != a.name)).lookup name =
          m.lookup name :=
        fun name hname => lookup_filter_ne (Ne.symm hname) m
      refine ⟨_, ?_, hm.concat ⟨a.name, some v⟩ _ hothers⟩
      rw [Argument.takesValue, Bool.or_eq_true, decide_eq_true_eq, decide_eq_true_eq] at hvalue
      rcases hvalue with haction | haction
      · have hlookup : m.lookup a.name = none := hfresh (by rw [haction]; nofun)
        simp [take, haction, hlookup, hfault]
      · simp [take, haction, hfault]

/-! ### Taking an option apart -/

/-- A name that can stand before an equals sign. -/
def IsOptionName (name : String) : Prop :=
  name.toList ≠ [] ∧ '=' ∉ name.toList

theorem toList_text (o : WrittenOption) :
    o.text.toList = '-' :: '-' :: (o.name.toList ++ o.value.elim [] fun v => '=' :: v.toList) := by
  have hdashes : ("--" : String).toList = ['-', '-'] := rfl
  have hequals : ("=" : String).toList = ['='] := rfl
  obtain ⟨name, value⟩ := o
  cases value with
  | none => simp [text, String.toList_append, hdashes]
  | some v => simp [text, longOption, String.toList_append, hdashes, hequals]

/-- An option is taken apart into its name and its value, whatever the value looks like. -/
theorem splitLong_text (hname : IsOptionName o.name) :
    splitLong o.text = some (o.name, o.value) := by
  obtain ⟨name, value⟩ := o
  obtain ⟨hne, hequals⟩ := hname
  dsimp only at hne hequals
  have hsign : ∀ c ∈ name.toList, (c == '=') = false :=
    fun c hc => beq_false_of_ne fun heq => hequals (heq ▸ hc)
  obtain ⟨c, cs, hcs⟩ := List.exists_cons_of_ne_nil hne
  rw [splitLong, toList_text]
  cases value with
  | none =>
      have hsplit : Text.splitFirst? (· == '=') name.toList = none :=
        Text.splitFirst?_of_notMem hsign
      simp only [Option.elim_none, List.append_nil, hcs] at hsplit ⊢
      rw [hsplit, ← hcs, String.ofList_toList]
  | some v =>
      have hsplit : Text.splitFirst? (· == '=') (name.toList ++ '=' :: v.toList) =
          some (name.toList, v.toList) :=
        Text.splitFirst?_append hsign rfl
      simp only [Option.elim_some, hcs, List.cons_append] at hsplit ⊢
      rw [hsplit]
      simp only [← hcs, String.ofList_toList]

/-- The options of every level have names that can stand before an equals sign. -/
theorem isOptionName_of_optionNamed {name : String} (h : l.optionNamed name = some a) :
    a.name = name ∧ IsOptionName name := by
  have hname : a.name = name := by simpa using List.find?_some h
  have hmem : a ∈ l.options := List.mem_of_find?_eq_some h
  have hall : ∀ a ∈ l.options, a.name.toList ≠ [] ∧ '=' ∉ a.name.toList := by cases l <;> decide
  exact ⟨hname, hname ▸ hall a hmem⟩

/-- No subcommand begins with a dash. -/
theorem sub?_of_dash {s : String} {cs : List Char} (hs : s.toList = '-' :: cs) :
    l.sub? s = none := by
  have hall : ∀ x ∈ l.subs, x.1.toList.head? ≠ some '-' := by cases l <;> decide
  rw [Level.sub?, List.lookup_eq_none_iff]
  intro x hx
  rw [bne_iff_ne]
  rintro rfl
  exact hall x hx (by rw [hs, List.head?_cons])

/-! ### Rows -/

/-- A reader that has taken some values over and waits for nothing. -/
def Reading.ofMatches (m : Matches) : Reading := ⟨m, none, false, false, 0⟩

/-- An option that is read leaves the reader with its value taken over. -/
theorem readArgument_text {m' : Matches} (hnamed : l.optionNamed o.name = some a)
    (htakes : a.Takes o) (htake : take m a o.value.toList = .ok m') :
    readArgument l (.ofMatches m) o.text = .ok (.ofMatches m') := by
  have hnotDashes : (o.text == "--") = false := by
    rw [beq_eq_false_iff_ne]
    intro heq
    have hsplit := splitLong_text (isOptionName_of_optionNamed hnamed).2
    rw [heq] at hsplit
    cases hsplit
  have hmeet : meet (.ofMatches m) a o.value.toList = .ok (.ofMatches m') := by
    simp [meet, settle, Reading.ofMatches, htake, Except.map]
  have hlong : readLong l (.ofMatches m) o.name o.value = .ok (.ofMatches m') := by
    rw [readLong, hnamed]
    cases htakes with
    | flag haction =>
        have hvalue : a.takesValue = false := by simp [Argument.takesValue, haction]
        simp only [hvalue, Bool.false_eq_true, if_false]
        exact hmeet
    | value hvalue hfault =>
        simp only [hvalue, if_true]
        exact hmeet
  rw [readArgument, Reading.ofMatches, if_neg Bool.false_ne_true, hnotDashes,
    if_neg Bool.false_ne_true, splitLong_text (isOptionName_of_optionNamed hnamed).2]
  exact hlong

/-- **A row of options.** A level reads a row before anything else that follows, and then knows the
row. -/
theorem readLevel_row (hm : m.Holds before) (hreads : l.Reads (before ++ row))
    (rest : List String) :
    ∃ m', m'.Holds (before ++ row) ∧
      readLevel l (.ofMatches m) (row.map text ++ rest) = readLevel l (.ofMatches m') rest := by
  induction row generalizing before m with
  | nil => exact ⟨m, by rwa [List.append_nil], rfl⟩
  | cons o row ih =>
      have hmem : o ∈ before ++ o :: row := by simp
      obtain ⟨a, hnamed, htakes⟩ := hreads.takes o hmem
      have hnew : a.action = .addValue ∨ named o.name before = [] := by
        refine (hreads.once o hmem a hnamed).imp_right fun honce => ?_
        rw [named_append, ← List.singleton_append, named_append, named_singleton_self] at honce
        simp only [List.length_append, List.length_singleton] at honce
        exact List.length_eq_zero_iff.1 (by omega)
      obtain ⟨m₁, htake, hm₁⟩ := take_of_takes hm htakes hnew
      have hrow : before ++ o :: row = before ++ [o] ++ row := by simp
      rw [hrow] at hreads
      obtain ⟨m', hm', hrest⟩ := ih hm₁ hreads
      have hsub : subcommandAt l (.ofMatches m) o.text = none := by
        rw [subcommandAt, sub?_of_dash (toList_text o), ite_self]
      refine ⟨m', hrow ▸ hm', ?_⟩
      rw [List.map_cons, List.cons_append, readLevel, hsub]
      dsimp only
      rw [readArgument_text hnamed htakes htake]
      exact hrest

/-- A row before a subcommand. -/
theorem readLevel_subcommand {inner : List (Level × Matches)} (hreads : l.Reads row)
    (hsub : l.sub? word = some sub) (hhelp : sub ≠ .help) (hpositional : l.positional? = none)
    (hinner : readLevel sub .start rest = .ok inner) :
    ∃ m, m.Holds row ∧ readLevel l .start (row.map text ++ word :: rest) =
      .ok ((l, m) :: inner) := by
  obtain ⟨m, hm, hread⟩ := readLevel_row (m := []) Matches.holds_nil hreads (word :: rest)
  have hat : subcommandAt l (.ofMatches m) word = some sub := by
    rw [subcommandAt, if_neg (by simp [Reading.ofMatches]), hsub]
  have hfinish : finish l (.ofMatches m) true = .ok m := by
    simp [finish, settle, Reading.ofMatches, hpositional]
  refine ⟨m, hm, hread.trans ?_⟩
  rw [readLevel, hat]
  cases sub with
  | help => exact absurd rfl hhelp
  | _ => simp only [hinner, hfinish, Except.map]

/-- A row at the end of the arguments, of a level without subcommands and without a positional
argument. -/
theorem readLevel_leaf (hreads : l.Reads row) (hsubs : l.subs = [])
    (hpositional : l.positional? = none) :
    ∃ m, m.Holds row ∧ readLevel l .start (row.map text) = .ok [(l, m)] := by
  obtain ⟨m, hm, hread⟩ := readLevel_row (m := []) Matches.holds_nil hreads []
  rw [List.append_nil] at hread
  refine ⟨m, hm, hread.trans ?_⟩
  simp [readLevel, finish, settle, Reading.ofMatches, hsubs, hpositional, Except.map]

/-- A row before a positional argument at the end, whatever that looks like. -/
theorem readLevel_positional {v : String} (hreads : l.Reads row) (hsubs : l.subs = [])
    (hpositional : l.positional? = some a) (htakes : a.Takes ⟨a.name, some v⟩)
    (hnew : named a.name row = []) :
    ∃ m, m.Holds (row ++ [⟨a.name, some v⟩]) ∧
    readLevel l .start (row.map text ++ ["--", v]) = .ok [(l, m)] := by
  obtain ⟨m, hm, hread⟩ := readLevel_row (m := []) Matches.holds_nil hreads ["--", v]
  obtain ⟨m', htake, hm'⟩ := take_of_takes hm htakes (.inr hnew)
  have hsome : m'.lookup a.name ≠ none := by
    rw [hm' a.name, Ne, given_eq_none_iff]
    simp [named_singleton_self ⟨a.name, some v⟩]
  have hdashes : readLevel l (.ofMatches m) ["--", v] =
      readLevel l { Reading.ofMatches m with positional := true } [v] := by
    rw [readLevel, subcommandAt, sub?_of_dash (s := "--") rfl, ite_self]
    rfl
  have hvalue : readArgument l { Reading.ofMatches m with positional := true } v =
      .ok ⟨m, some (a, [v]), false, true, 1⟩ := by
    simp [readArgument, readValue, settle, Reading.ofMatches, hpositional, Except.map]
  have hfinish : finish l ⟨m, some (a, [v]), false, true, 1⟩ false = .ok m' := by
    rw [Option.toList_some] at htake
    simp [finish, settle, htake, hsubs, hpositional, hsome, Except.map]
  refine ⟨m', hm', hread.trans (hdashes.trans ?_)⟩
  rw [readLevel, subcommandAt, if_pos (by simp)]
  dsimp only
  rw [hvalue]
  dsimp only
  rw [readLevel, hfinish]
  rfl

end Usage

end EnvDiscovery
