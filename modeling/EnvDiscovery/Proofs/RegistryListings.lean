import EnvDiscovery.Locator.Registry
import EnvDiscovery.Proofs.Digits
import EnvDiscovery.Proofs.Entries
import EnvDiscovery.Proofs.Occurrences

/-!
**Listings of the registry are read back.**

A listing shows a key on a line of its own, one line for each of its values, and one line with the
full path of each key below it. Both readers go through all lines: the one for values passes over
the keys, and the one for keys passes over the values and over the key itself. The name of a value
ends where the first type follows a gap, and that is where the name was put, since no type follows a
gap inside the name.

Main definitions:
* `Registry.ShownValue`, `Registry.Listing` — what a listing shows;
* `Registry.Listing.render` — its text;
* `Registry.Listing.Legible` — names and data that lines can hold.

Main results:
* `Registry.splitValue_shown` — the line of a value falls apart where it was put together;
* `Registry.parseValue_line`, `Registry.keyOfLine?_subkey` — the lines of values and of keys below;
* `Registry.listings_are_read_back` — **reading a listing gives its values and the names of its
  keys**.
-/

namespace EnvDiscovery.Registry

open Text (LastNot isBlank)

/-! ### The text of a listing -/

/-- A value and the type that its line shows. -/
structure ShownValue where
  value : Value
  type : String

/-- The name under which a value is shown. -/
def ShownValue.shownName (v : ShownValue) : String :=
  if v.value.name = "" then "(Default)" else v.value.name

/-- The line of a value. -/
def ShownValue.line (v : ShownValue) : String :=
  "    " ++ v.shownName ++ "    " ++ v.type ++ "    " ++ v.value.value

/-- What is shown for a key: the key as its own line spells it, its values, and the names of the
keys below, each after the path of the key in the spelling `path`. -/
structure Listing where
  query : Query
  own : String
  values : List ShownValue
  path : String
  subkeys : List String

/-- The line of a key below. -/
def Listing.subkeyLine (l : Listing) (name : String) : String :=
  l.path ++ "\\" ++ name

/-- The lines of a listing, with some empty lines before the key, before the keys below and at the
end. -/
def Listing.lines (l : Listing) (above between below : Nat) : List String :=
  List.replicate above "" ++ [l.own] ++ l.values.map ShownValue.line ++ List.replicate between "" ++
    l.subkeys.map l.subkeyLine ++ List.replicate below ""

/-- The text of a listing. Every line ends in a carriage return and a line feed. -/
def Listing.render (l : Listing) (above between below : Nat) : String :=
  String.join ((l.lines above between below).map (· ++ "\r\n"))

/-- A text without line feeds. -/
def OneLine (s : String) : Prop :=
  '\n' ∉ s.toList

instance (s : String) : Decidable (OneLine s) :=
  inferInstanceAs (Decidable ('\n' ∉ s.toList))

/-- The name of a type: `REG_` and one or more capitals and low lines. -/
def IsTypeName (s : String) : Prop :=
  ∃ c cs, s.toList = "REG_".toList ++ c :: cs ∧ ∀ d ∈ c :: cs, d.isUpper = true ∨ d = '_'

/-- A value that a line can hold: no type follows a gap in its name, the name is not the one that
stands for no name, and its data does not end in a blank. -/
structure ShownValue.Legible (v : ShownValue) : Prop where
  name_line : OneLine v.value.name
  name_gap : ¬ "    REG_".toList <:+: v.value.name.toList
  name_plain : v.value.name ≠ "(Default)"
  data_line : OneLine v.value.value
  data_end : LastNot isBlank v.value.value.toList
  type_name : IsTypeName v.type

/-- A listing whose lines can be told apart. The key may be spelled in any case, except that the
hive of a path begins with capitals. -/
structure Listing.Legible (l : Listing) : Prop where
  key_ne : l.query.key ≠ ""
  key_line : OneLine l.query.key
  key_end : LastNot isBlank l.query.key.toList
  own_case : Text.asciiLower l.own = Text.asciiLower l.query.fullText
  path_case : Text.asciiLower l.path = Text.asciiLower l.query.fullText
  path_hive : Text.startsWith "HKEY_" l.path = true
  values : ∀ v ∈ l.values, v.Legible
  subkeys : ∀ s ∈ l.subkeys, s ≠ "" ∧ '\\' ∉ s.toList ∧ OneLine s ∧ LastNot isBlank s.toList

/-! ### Lines of values -/

section Value

variable {name data : List Char} {type : String}

theorem gap_append (cs : List Char) : gap ++ cs = ' ' :: ' ' :: ' ' :: ' ' :: cs := rfl

/-- What follows a type: a gap and the data. -/
theorem data?_type (htype : IsTypeName type) (hdata : '\n' ∉ data) :
    data? (type.toList ++ (gap ++ data)) = some data := by
  obtain ⟨c, cs, htext, hchars⟩ := htype
  have hrun : ∀ d ∈ c :: cs, isTypeChar d = true := by simpa [isTypeChar] using hchars
  have hspace : Text.HeadNot isTypeChar (gap ++ data) := by
    rw [gap_append, Text.headNot_cons]
    decide
  rw [data?, htext, List.append_assoc, Text.afterStart?_append]
  dsimp only
  rw [Text.takeWhile_append hrun hspace, Text.dropWhile_append hrun hspace, gap_append]
  dsimp only
  rw [← gap_append, Text.afterStart?_append]
  simp [hdata]

/-- Only a type after a gap shows data. -/
theorem isPrefix_of_data? {cs found : List Char}
    (h : (Text.afterStart? gap cs).bind data? = some found) :
    "    REG_".toList <+: cs := by
  obtain ⟨rest, hrest, hdata⟩ := Option.bind_eq_some_iff.1 h
  rw [Text.afterStart?_eq_some_iff] at hrest
  rw [data?] at hdata
  split at hdata
  case h_1 => cases hdata
  case h_2 more hmore =>
    rw [Text.afterStart?_eq_some_iff] at hmore
    exact ⟨more, by rw [hrest, hmore]; rfl⟩

theorem unbordered_gap : Text.Unbordered "    REG_".toList := by decide

/-- A gap with a type behind it does not stand earlier than behind the name. -/
theorem not_isPrefix_shown (htype : IsTypeName type) (hname : name ≠ [])
    (hgap : ¬ "    REG_".toList <:+: name) (rest : List Char) :
    ¬ "    REG_".toList <+: name ++ (gap ++ (type.toList ++ rest)) := by
  obtain ⟨c, cs, htext, -⟩ := htype
  have hword : gap ++ (type.toList ++ rest) = "    REG_".toList ++ (c :: cs ++ rest) := by
    rw [htext, List.append_assoc]
    rfl
  rw [hword]
  exact unbordered_gap.not_isPrefix hname hgap

/-- **The line of a value falls apart where it was put together.** -/
theorem splitValue_shown (htype : IsTypeName type) (hname : '\n' ∉ name)
    (hgap : ¬ "    REG_".toList <:+: name) (hdata : '\n' ∉ data) :
    splitValue (name ++ (gap ++ (type.toList ++ (gap ++ data)))) = some (name, data) := by
  induction name with
  | nil =>
      rw [List.nil_append, gap_append, splitValue, ← gap_append, Text.afterStart?_append,
        Option.bind_some, data?_type htype hdata]
  | cons c name ih =>
      have hnone : (Text.afterStart? gap (c :: name ++
          (gap ++ (type.toList ++ (gap ++ data))))).bind data? = none := by
        rw [Option.eq_none_iff_forall_ne_some]
        intro found hfound
        exact not_isPrefix_shown htype (List.cons_ne_nil c name) hgap _ (isPrefix_of_data? hfound)
      have hc : (c == '\n') = false := by
        rw [beq_eq_false_iff_ne]
        rintro rfl
        exact hname List.mem_cons_self
      rw [List.cons_append] at hnone ⊢
      rw [splitValue, hnone]
      dsimp only
      rw [hc, if_neg Bool.false_ne_true,
        ih (fun h => hname (List.mem_cons_of_mem _ h)) fun h => hgap (List.infix_cons h)]
      rfl

end Value

/-- The value that a line shows, if it shows one. -/
def valueOfLine? (line : String) : Option Value :=
  parseValue (Text.dropEndWhile (fun c => c == '\r' || c == '\n') line.toList)

theorem parseValues_eq (output : String) :
    parseValues output = (Text.lines output).filterMap valueOfLine? := by
  rw [parseValues, Text.lines, List.filterMap_map]
  simp only [Function.comp_def, valueOfLine?, String.toList_ofList]

theorem valueOfLine?_of_not_gap {line : String} (h : ¬ gap <+: line.toList) :
    valueOfLine? line = none := by
  have hstart : ¬ gap <+: Text.dropEndWhile (fun c => c == '\r' || c == '\n') line.toList :=
    fun hgap => h (hgap.trans (Text.prefix_dropEndWhile _ _))
  rw [valueOfLine?, parseValue, Text.afterStart?_eq_none_iff.2 hstart]
  rfl

namespace ShownValue

variable {v : ShownValue}

theorem toList_line (v : ShownValue) :
    v.line.toList = gap ++ (v.shownName.toList ++
      (gap ++ (v.type.toList ++ (gap ++ v.value.value.toList)))) := by
  simp [line, gap_append]

theorem Legible.shownName_line (h : v.Legible) : OneLine v.shownName := by
  rw [shownName]
  split
  · decide
  · exact h.name_line

theorem Legible.shownName_gap (h : v.Legible) : ¬ "    REG_".toList <:+: v.shownName.toList := by
  rw [shownName]
  split
  · decide
  · exact h.name_gap

/-- The name that a line shows is read as the name of the value. -/
theorem Legible.name_of_shownName (h : v.Legible) :
    (if v.shownName == "(Default)" then "" else v.shownName) = v.value.name := by
  rw [shownName]
  split
  case isTrue hempty =>
    rw [hempty]
    rfl
  case isFalse => rw [if_neg (by simpa using h.name_plain)]

/-- A line of a value does not end in a line ending of its own. -/
theorem Legible.lastNot_line (h : v.Legible) :
    LastNot (fun c => c == '\r' || c == '\n') v.line.toList := by
  have hend : LastNot (fun c => c == '\r' || c == '\n') (gap ++ v.value.value.toList) := by
    by_cases hdata : v.value.value.toList = []
    · rw [hdata]
      simp [gap, LastNot]
    · refine Text.LastNot.append ?_ hdata
      intro c hc
      have hblank := h.data_end c hc
      rw [← Bool.not_eq_true, Bool.or_eq_true, beq_iff_eq, beq_iff_eq]
      rintro (rfl | rfl) <;> revert hblank <;> decide
  have hsplit : v.line.toList = (gap ++ v.shownName.toList ++ gap ++ v.type.toList) ++
      (gap ++ v.value.value.toList) := by
    simp [toList_line]
  rw [hsplit]
  exact hend.append (by simp [gap])

theorem Legible.oneLine_line (h : v.Legible) : OneLine v.line := by
  obtain ⟨c, cs, htype, hchars⟩ := h.type_name
  have htype : '\n' ∉ v.type.toList := by
    rw [htype, List.mem_append, not_or]
    refine ⟨by decide, fun hmem => ?_⟩
    rcases hchars '\n' hmem with hupper | hlow
    · exact absurd hupper (by decide)
    · exact absurd hlow (by decide)
  have hname := h.shownName_line
  have hdata := h.data_line
  rw [OneLine] at hname hdata
  simp [OneLine, toList_line, gap_append, hname, hdata, htype]

theorem not_hive_line (v : ShownValue) : ¬ ['H'] <+: v.line.toList := by
  rw [toList_line, gap_append, List.cons_prefix_cons]
  rintro ⟨hspace, -⟩
  exact absurd hspace (by decide)

/-- Reading the line of a value. -/
theorem Legible.valueOfLine?_line (h : v.Legible) : valueOfLine? v.line = some v.value := by
  rw [valueOfLine?, Text.dropEndWhile_of_lastNot h.lastNot_line, toList_line, parseValue,
    Text.afterStart?_append]
  simp only [Option.bind_eq_bind, Option.bind_some]
  rw [splitValue_shown h.type_name h.shownName_line h.shownName_gap h.data_line]
  simp only [Option.bind_some, String.ofList_toList, h.name_of_shownName,
    Text.trimEnd_of_lastNot h.data_end]

end ShownValue

/-! ### Lines of keys -/

/-- What precedes a backslash does not show in the last part. -/
theorem lastPart_below (front name : String) :
    lastPart (front ++ "\\" ++ name) = lastPart name := by
  have hstop : ('\\' :: front.toList.reverse).takeWhile (· != '\\') = [] := by simp
  have hreverse : (front ++ "\\" ++ name).toList.reverse = name.toList.reverse ++ '\\' ::
      front.toList.reverse := by simp
  rw [lastPart, lastPart, hreverse, List.takeWhile_append, hstop, List.append_nil]
  split
  case isTrue h => rw [(List.takeWhile_prefix _).eq_of_length h]
  case isFalse => rfl

theorem lastPart_of_notMem {name : String} (h : '\\' ∉ name.toList) : lastPart name = name := by
  have hall : ∀ c ∈ name.toList.reverse, (c != '\\') = true := by
    intro c hc
    rw [bne_iff_ne]
    rintro rfl
    exact h (List.mem_reverse.1 hc)
  rw [lastPart, List.takeWhile_eq_self_iff.2 hall, List.reverse_reverse, String.ofList_toList]

/-- The name of the key that a line shows, unless it is the key asked for. -/
def keyOfLine? (q : Query) (line : String) : Option String :=
  if Text.startsWith "HKEY_" (Text.trimEnd line) &&
    Text.asciiLower (Text.trimEnd line) != Text.asciiLower q.fullText then
    some (lastPart (Text.trimEnd line))
  else none

theorem parseKeys_eq (q : Query) (output : String) :
    parseKeys q output = (Text.lines output).filterMap (keyOfLine? q) := by
  rw [parseKeys]
  induction Text.lines output with
  | nil => rfl
  | cons line lines ih =>
      rw [List.map_cons, List.filter_cons, List.filterMap_cons, keyOfLine?, ← ih]
      split <;> rfl

theorem keyOfLine?_of_not_hive {q : Query} {line : String} (h : ¬ ['H'] <+: line.toList) :
    keyOfLine? q line = none := by
  rw [keyOfLine?, if_neg]
  rw [Bool.and_eq_true, Text.startsWith_iff]
  rintro ⟨hstart, -⟩
  have hline : "HKEY_".toList <+: line.toList := by
    refine hstart.trans ?_
    rw [Text.trimEnd, String.toList_ofList]
    exact Text.prefix_dropEndWhile _ _
  exact h (List.IsPrefix.trans ⟨"KEY_".toList, rfl⟩ hline)

namespace Listing

variable {l : Listing}

theorem Legible.fullText_end (h : l.Legible) : LastNot isBlank l.query.fullText.toList := by
  have hne : l.query.key.toList ≠ [] := fun hnil => h.key_ne (String.toList_eq_nil_iff.1 hnil)
  rw [Query.fullText, String.toList_append]
  exact h.key_end.append hne

theorem Legible.fullText_line (h : l.Legible) : OneLine l.query.fullText := by
  have hhive : '\n' ∉ l.query.hive.full.toList := by cases l.query.hive <;> decide
  have hkey := h.key_line
  rw [OneLine] at hkey
  simp [OneLine, Query.fullText, hhive, hkey]

/-- A key is one line in any case. -/
theorem Legible.oneLine_of_case (h : l.Legible) {s : String}
    (hs : Text.asciiLower s = Text.asciiLower l.query.fullText) :
    OneLine s :=
  fun hmem => h.fullText_line (Text.mem_of_asciiLower hs (by decide) hmem)

/-- A key begins with the first letter of its hive in any case, so that its line shows no value. -/
theorem not_gap_of_case {s : String} (hs : Text.asciiLower s = Text.asciiLower l.query.fullText) :
    ¬ gap <+: s.toList := by
  rintro ⟨rest, hrest⟩
  obtain ⟨cs, hhive⟩ : ∃ cs, l.query.hive.full.toList = 'H' :: cs := by
    cases l.query.hive <;> exact ⟨_, rfl⟩
  have hhead := congrArg List.head? (Text.map_toLower_of_asciiLower hs)
  rw [← hrest, gap_append, Query.fullText, String.toList_append, String.toList_append, hhive,
    List.cons_append, List.cons_append] at hhead
  simp only [List.map_cons, List.head?_cons] at hhead
  revert hhead
  decide

/-- The line of the key itself shows no key below it. -/
theorem Legible.keyOfLine?_own (h : l.Legible) : keyOfLine? l.query l.own = none := by
  have hend := Text.lastNot_of_asciiLower h.own_case h.fullText_end
  rw [keyOfLine?, Text.trimEnd_of_lastNot hend, h.own_case, bne_self_eq_false, Bool.and_false,
    if_neg Bool.false_ne_true]

/-- The line of a key below shows no value. -/
theorem Legible.not_gap_subkeyLine (h : l.Legible) (name : String) :
    ¬ gap <+: (l.subkeyLine name).toList := by
  rintro ⟨rest, hrest⟩
  obtain ⟨more, hmore⟩ := Text.startsWith_iff.1 h.path_hive
  rw [subkeyLine, String.toList_append, String.toList_append, ← hmore, gap_append] at hrest
  exact absurd (List.cons.inj hrest).1 (by decide)

/-- Reading the line of a key below. -/
theorem Legible.keyOfLine?_subkey (h : l.Legible) {name : String} (hname : name ∈ l.subkeys) :
    keyOfLine? l.query (l.subkeyLine name) = some name := by
  obtain ⟨hne, hslash, -, hend⟩ := h.subkeys name hname
  have hchars : (l.subkeyLine name).toList = l.path.toList ++ '\\' :: name.toList := by
    simp [subkeyLine]
  have htrim : Text.trimEnd (l.subkeyLine name) = l.subkeyLine name := by
    refine Text.trimEnd_of_lastNot ?_
    rw [hchars, ← List.singleton_append, ← List.append_assoc]
    exact hend.append fun hnil => hne (String.toList_eq_nil_iff.1 hnil)
  have hstart : Text.startsWith "HKEY_" (l.subkeyLine name) = true := by
    rw [Text.startsWith_iff, hchars]
    exact (Text.startsWith_iff.1 h.path_hive).trans (List.prefix_append _ _)
  have hother : Text.asciiLower (l.subkeyLine name) ≠ Text.asciiLower l.query.fullText := by
    intro heq
    have hlength :=
      (Text.length_of_asciiLower heq).trans (Text.length_of_asciiLower h.path_case).symm
    rw [hchars, List.length_append, List.length_cons] at hlength
    omega
  rw [keyOfLine?, htrim, hstart, bne_iff_ne.2 hother, Bool.and_self, if_pos rfl, subkeyLine,
    lastPart_below, lastPart_of_notMem hslash]

/-! ### Listings -/

theorem toList_render (l : Listing) (above between below : Nat) :
    (l.render above between below).toList =
      ((l.lines above between below).map String.toList).flatMap (· ++ ['\r', '\n']) := by
  simp [render, String.toList_join, List.flatMap_map]

theorem Legible.oneLine_lines (h : l.Legible) {above between below : Nat} {line : String}
    (hline : line ∈ l.lines above between below) : OneLine line := by
  simp only [lines, List.mem_append, List.mem_map, List.mem_replicate, List.mem_singleton] at hline
  rcases hline with ((((⟨-, rfl⟩ | rfl) | ⟨v, hv, rfl⟩) | ⟨-, rfl⟩) | ⟨name, hname, rfl⟩) | ⟨-, rfl⟩
  · exact List.not_mem_nil
  · exact h.oneLine_of_case h.own_case
  · exact (h.values v hv).oneLine_line
  · exact List.not_mem_nil
  · have hpath := h.oneLine_of_case h.path_case
    have hline := (h.subkeys name hname).2.2.1
    rw [OneLine] at hpath hline
    simp [OneLine, subkeyLine, hpath, hline]
  · exact List.not_mem_nil

/-- **The lines of the text of a listing** are those it was put together from. -/
theorem Legible.lines_render (h : l.Legible) (above between below : Nat) :
    Text.lines (l.render above between below) = l.lines above between below := by
  have hone : ∀ cs ∈ (l.lines above between below).map String.toList, '\n' ∉ cs := by
    intro cs hcs
    obtain ⟨line, hline, rfl⟩ := List.mem_map.1 hcs
    exact h.oneLine_lines hline
  rw [Text.lines, toList_render, Text.linesOf_closed hone, List.map_map]
  exact List.map_id'' (fun line => String.ofList_toList) _

end Listing

/-! ### Reading whole blocks of lines -/

section Blocks

variable {α β : Type} {f : String → Option α} {line : β → String} {g : β → α} {shown : List β}

theorem filterMap_blank (hf : f "" = none) (n : Nat) : (List.replicate n "").filterMap f = [] := by
  rw [List.filterMap_eq_nil_iff]
  intro line hline
  rw [List.eq_of_mem_replicate hline, hf]

theorem filterMap_passed (h : ∀ b ∈ shown, f (line b) = none) :
    (shown.map line).filterMap f = [] := by
  rw [List.filterMap_map, List.filterMap_eq_nil_iff]
  exact h

theorem filterMap_shown (h : ∀ b ∈ shown, f (line b) = some (g b)) :
    (shown.map line).filterMap f = shown.map g := by
  calc (shown.map line).filterMap f
      = shown.filterMap (f ∘ line) := List.filterMap_map
    _ = shown.filterMap (some ∘ g) := List.filterMap_congr h
    _ = shown.map g := congrFun List.filterMap_eq_map shown

end Blocks

/-- **Listings are read back.** Whatever the key, its values and the keys below it are, and in
whatever case the key is spelled, the text of a listing gives the values and the names of the keys
below, in order. -/
theorem listings_are_read_back (l : Listing) (h : l.Legible) (above between below : Nat) :
    parseValues (l.render above between below) = l.values.map ShownValue.value ∧
    parseKeys l.query (l.render above between below) = l.subkeys := by
  have hown : valueOfLine? l.own = none :=
    valueOfLine?_of_not_gap (Listing.not_gap_of_case h.own_case)
  have hvalues : (l.values.map ShownValue.line).filterMap valueOfLine? =
      l.values.map ShownValue.value :=
    filterMap_shown fun v hv => (h.values v hv).valueOfLine?_line
  have hnoValues : (l.subkeys.map l.subkeyLine).filterMap valueOfLine? = [] :=
    filterMap_passed fun name _ => valueOfLine?_of_not_gap (h.not_gap_subkeyLine name)
  have hnoKeys : (l.values.map ShownValue.line).filterMap (keyOfLine? l.query) = [] :=
    filterMap_passed fun v _ => keyOfLine?_of_not_hive v.not_hive_line
  have hkeys : (l.subkeys.map l.subkeyLine).filterMap (keyOfLine? l.query) = l.subkeys.map id :=
    filterMap_shown fun _ hname => h.keyOfLine?_subkey hname
  rw [parseValues_eq, parseKeys_eq, h.lines_render, Listing.lines]
  simp only [List.filterMap_append, List.filterMap_cons, List.filterMap_nil]
  constructor
  · rw [filterMap_blank (f := valueOfLine?) rfl, filterMap_blank (f := valueOfLine?) rfl,
      filterMap_blank (f := valueOfLine?) rfl, hown, hvalues, hnoValues]
    simp
  · rw [filterMap_blank (f := keyOfLine? l.query) rfl,
      filterMap_blank (f := keyOfLine? l.query) rfl, filterMap_blank (f := keyOfLine? l.query) rfl,
      h.keyOfLine?_own, hnoKeys, hkeys]
    simp

/-- A key in another case, a value without name and data, and one whose name has blanks around
something like a type and whose data looks like a value of its own. -/
def spacedListing : Listing where
  query := ⟨.localMachine, .x64, "SOFTWARE\\Python"⟩
  own := "hkey_local_machine\\Software\\PYTHON"
  values := [⟨⟨"", ""⟩, "REG_SZ"⟩, ⟨⟨"  REG_ a   ", " b    REG_SZ    c"⟩, "REG_EXPAND_SZ"⟩]
  path := "HKEY_LOCAL_MACHINE\\Software\\PYTHON"
  subkeys := ["PythonCore", "    REG_SZ"]

theorem spacedListing_legible : spacedListing.Legible where
  key_ne := by decide
  key_line := by decide
  key_end := by decide
  own_case := by decide +kernel
  path_case := by decide +kernel
  path_hive := by decide +kernel
  values := by
    rw [spacedListing, List.forall_mem_cons, List.forall_mem_singleton]
    exact ⟨⟨by decide, by decide, by decide, by decide, by decide, 'S', ['Z'], rfl, by simp⟩,
      ⟨by decide, by decide, by decide, by decide, by decide, 'E', "XPAND_SZ".toList, rfl, by simp⟩⟩
  subkeys := by
    rw [spacedListing, List.forall_mem_cons, List.forall_mem_singleton]
    exact ⟨by decide, by decide⟩

theorem listings_are_read_back_spaced :
    spacedListing.Legible ∧
    parseValues (spacedListing.render 1 1 0) = [⟨"", ""⟩, ⟨"  REG_ a   ", " b    REG_SZ    c"⟩] ∧
    parseKeys ⟨.localMachine, .x64, "SOFTWARE\\Python"⟩
    (spacedListing.render 1 1 0) = ["PythonCore", "    REG_SZ"] :=
  ⟨spacedListing_legible, listings_are_read_back spacedListing spacedListing_legible 1 1 0⟩

end EnvDiscovery.Registry
