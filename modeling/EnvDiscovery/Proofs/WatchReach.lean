import EnvDiscovery.Proofs.PatternReach
import EnvDiscovery.Proofs.RelativePaths

/-!
**How far below a directory a pattern reaches.**

A pattern is watched for the entries of its directory alone if its text has neither a slash nor two
stars. It then crosses no slash by itself, but a class that admits a slash does: what is matched can
lie deeper than the entries, by one level for each such class, and names with such classes between
them reach any depth.

Main definitions:
* `Glob.IsPlainName` — names that stand for themselves in a pattern;
* `Glob.spanning` — the tokens of names with a class between each two.

Main results:
* `Glob.parse_spanning`, `Glob.matchesBytes_spanning`, `Glob.reachOf_spanning` — how such names are
  read and what they match;
* `WatchPattern.isFlat_of_not_recursive`, `WatchPattern.components_of_matchesPath` — what a pattern
  for entries matches;
* `WatchPattern.classes_reach_below_entries` — **patterns for entries reach below them by classes,
  to any depth**.
-/

namespace EnvDiscovery

namespace Glob

/-! ### Names with classes between them -/

/-- Whether a character stands for itself in a pattern. -/
def isPlain (c : Char) : Bool :=
  !(['?', '*', '[', '\x7b', '\x7d', ',', '\\'].contains c)

/-- A name that a directory can list and that stands for itself in a pattern. -/
structure IsPlainName (x : String) : Prop where
  entry : Path.IsEntryName x
  plain : ∀ c ∈ x.toList, isPlain c = true

instance : DecidablePred IsPlainName := fun x =>
  decidable_of_iff (Path.IsEntryName x ∧ x.toList.all isPlain = true)
    ⟨fun h => ⟨h.1, List.all_eq_true.1 h.2⟩, fun h => ⟨h.entry, List.all_eq_true.2 h.plain⟩⟩

/-- The class of all bytes but one. -/
def othersThanB : Token :=
  .oneOf true [('b', 'b')]

/-- The tokens of names with such a class between each two. -/
def spanning : List String → List Token
  | [] => []
  | [x] => x.toList.map .literal
  | x :: xs => x.toList.map .literal ++ othersThanB :: spanning xs

theorem mem_of_mem_intercalate {c : Char} {sep : String} {xs : List String}
    (h : c ∈ (sep.intercalate xs).toList) :
    c ∈ sep.toList ∨ ∃ x ∈ xs, c ∈ x.toList := by
  induction xs with
  | nil => simp at h
  | cons x xs ih =>
      cases xs with
      | nil => exact .inr ⟨x, List.mem_cons_self, by simpa using h⟩
      | cons y ys =>
          rw [String.intercalate_cons_cons, String.toList_append, String.toList_append,
            List.mem_append, List.mem_append] at h
          rcases h with (h | h) | h
          · exact .inr ⟨x, List.mem_cons_self, h⟩
          · exact .inl h
          · exact (ih h).imp_right fun ⟨z, hz, hc⟩ => ⟨z, List.mem_cons_of_mem _ hz, hc⟩

theorem readTokens_plain {w : List Char} (hw : ∀ c ∈ w, isPlain c = true) (s : State) (fuel : Nat)
    (cs : List Char) :
    ∃ prev, readTokens (w.length + fuel) s (w ++ cs) =
      readTokens fuel { s.push (w.map .literal) with prev := prev } cs := by
  induction w generalizing s with
  | nil => exact ⟨s.prev, by simp [State.push]⟩
  | cons c w ih =>
      obtain ⟨hc, hw⟩ := List.forall_mem_cons.1 hw
      obtain ⟨prev, hprev⟩ := ih hw { s.push [.literal c] with prev := some c }
      refine ⟨prev, ?_⟩
      have hfirst : readTokens (w.length + fuel + 1) s (c :: (w ++ cs)) =
          readTokens (w.length + fuel) { s.push [.literal c] with prev := some c } (w ++ cs) := by
        have hne : ∀ d, isPlain d = false → c ≠ d := by
          rintro d hd rfl
          rw [hc] at hd
          cases hd
        rw [readTokens]
        all_goals exact hne _ (by decide)
      rw [List.length_cons, Nat.add_right_comm, List.cons_append, hfirst, hprev]
      simp [State.push]

/-- Names with such a class between each two are read as they are meant. -/
theorem readTokens_spanning {xs : List String} (hxs : ∀ x ∈ xs, IsPlainName x) (s : State)
    {fuel : Nat} (hfuel : ("[!b]".intercalate xs).toList.length ≤ fuel) :
    ∃ prev, readTokens fuel s ("[!b]".intercalate xs).toList =
      .ok { s.push (spanning xs) with prev := prev } := by
  induction xs generalizing s fuel with
  | nil => exact ⟨s.prev, by simp [spanning, State.push, readTokens]⟩
  | cons x xs ih =>
      obtain ⟨hx, hxs⟩ := List.forall_mem_cons.1 hxs
      cases xs with
      | nil =>
          rw [String.intercalate_singleton] at hfuel ⊢
          obtain ⟨more, rfl⟩ := Nat.exists_eq_add_of_le hfuel
          obtain ⟨prev, hprev⟩ := readTokens_plain hx.plain s more []
          rw [List.append_nil] at hprev
          exact ⟨prev, by rw [hprev, spanning, readTokens]⟩
      | cons y ys =>
          have htext : ("[!b]".intercalate (x :: y :: ys)).toList =
              x.toList ++ '[' :: '!' :: 'b' :: ']' :: ("[!b]".intercalate (y :: ys)).toList := by
            rw [String.intercalate_cons_cons, String.toList_append, String.toList_append,
              List.append_assoc]
            rfl
          rw [htext] at hfuel ⊢
          obtain ⟨more, rfl, hmore⟩ : ∃ more, fuel = x.toList.length + (more + 1) ∧
              ("[!b]".intercalate (y :: ys)).toList.length ≤ more := by
            rw [List.length_append, List.length_cons] at hfuel
            exact ⟨fuel - x.toList.length -
              1, by omega, by simp only [List.length_cons] at hfuel; omega⟩
          obtain ⟨prev, hprev⟩ := readTokens_plain hx.plain s (more + 1)
            ('[' :: '!' :: 'b' :: ']' :: ("[!b]".intercalate (y :: ys)).toList)
          have hclass : ∀ (s : State) (cs : List Char),
            readTokens (more + 1) s ('[' :: '!' :: 'b' :: ']' :: cs) =
              readTokens more { s.push [othersThanB] with prev := some ']' } cs := fun _ _ => rfl
          obtain ⟨prev', hrest⟩ :=
            ih hxs { (s.push (x.toList.map .literal)).push [othersThanB] with prev := some ']' }
              hmore
          refine ⟨prev', ?_⟩
          rw [hprev, hclass]
          refine hrest.trans ?_
          simp [State.push, spanning]

theorem parse_spanning {xs : List String} (hxs : ∀ x ∈ xs, IsPlainName x) :
    parse ("[!b]".intercalate xs) = .ok (spanning xs) := by
  obtain ⟨prev, hread⟩ := readTokens_spanning hxs ⟨⟨[], []⟩, [], none⟩ (Nat.le_refl _)
  unfold parse
  dsimp only
  rw [hread]
  simp [State.inBraces, State.push]

/-! ### What names with classes between them match -/

theorem mem_restsOf_cons {t : Token} {ts : List Token} {bs rest : List UInt8} :
    rest ∈ restsOf (t :: ts) bs ↔ ∃ mid ∈ t.rests bs, rest ∈ restsOf ts mid := by
  rw [restsOf, List.mem_eraseDups, List.mem_flatMap]

theorem mem_restsOf_literals (w : List Char) {ts : List Token} {bs rest : List UInt8}
    (h : rest ∈ restsOf ts bs) :
    rest ∈ restsOf (w.map .literal ++ ts) (Report.utf8 w ++ bs) := by
  induction w with
  | nil => exact h
  | cons c w ih =>
      rw [List.map_cons, List.cons_append, mem_restsOf_cons]
      refine ⟨Report.utf8 w ++ bs, ?_, ih⟩
      rw [Token.rests, Option.mem_toList, Text.afterStart?_eq_some_iff, charBytes_eq,
        ← List.append_assoc, ← Report.utf8_append]
      rfl

theorem inClass_othersThanB : inClass true [('b', 'b')] slash = true := by decide +kernel

/-- The class passes a slash. -/
theorem mem_restsOf_othersThanB {ts : List Token} {bs rest : List UInt8}
    (h : rest ∈ restsOf ts bs) :
    rest ∈ restsOf (othersThanB :: ts) (slash :: bs) := by
  refine mem_restsOf_cons.2 ⟨bs, ?_, h⟩
  rw [othersThanB, Token.rests, if_pos inClass_othersThanB]
  exact List.mem_cons_self

theorem nil_mem_restsOf_spanning (xs : List String) :
    [] ∈ restsOf (spanning xs) (Report.utf8 ("/".intercalate xs).toList) := by
  induction xs with
  | nil => simp [spanning, restsOf]
  | cons x xs ih =>
      cases xs with
      | nil =>
          rw [spanning, String.intercalate_singleton]
          have hend : ([] : List UInt8) ∈ restsOf [] [] := by simp [restsOf]
          simpa using mem_restsOf_literals x.toList hend
      | cons y ys =>
          have htext : Report.utf8 ("/".intercalate (x :: y :: ys)).toList =
              Report.utf8 x.toList ++ slash :: Report.utf8 ("/".intercalate (y :: ys)).toList := by
            rw [String.intercalate_cons_cons, String.toList_append, String.toList_append,
              List.append_assoc, Report.utf8_append, Report.utf8_append]
            rfl
          rw [htext]
          exact mem_restsOf_literals x.toList (mem_restsOf_othersThanB ih)

theorem reachOf_literals (w : List Char) (ts : List Token) :
    reachOf (w.map .literal ++ ts) = reachOf ts := by
  induction w with
  | nil => rfl
  | cons c w ih =>
      have hliteral : (Token.literal c).reach = 0 := rfl
      rw [List.map_cons, List.cons_append, reachOf, ih, hliteral, Nat.zero_add]

theorem reachOf_spanning {xs : List String} (hne : xs ≠ []) :
    reachOf (spanning xs) + 1 = xs.length := by
  induction xs with
  | nil => exact absurd rfl hne
  | cons x xs ih =>
      cases xs with
      | nil => simpa [spanning, reachOf] using reachOf_literals x.toList []
      | cons y ys =>
          have hclass : othersThanB.reach = 1 := by
            rw [othersThanB, Token.reach, if_pos inClass_othersThanB]
          rw [spanning, reachOf_literals, reachOf, hclass, List.length_cons,
            ← ih (List.cons_ne_nil _ _)]
          · omega
          · exact List.cons_ne_nil _ _

theorem matchesBytes_spanning (xs : List String) :
    matchesBytes (spanning xs) (Text.bytes ("/".intercalate xs)) = true := by
  unfold matchesBytes
  split
  case h_1 => rfl
  case h_2 =>
    rw [Text.bytes_eq_utf8]
    exact List.any_eq_true.2 ⟨[], nil_mem_restsOf_spanning xs, rfl⟩

end Glob

namespace WatchPattern

open Glob

variable {base p : Path} {pattern : String} {w : WatchPattern}

theorem new_eq_ok_iff : new base pattern = .ok w ↔ ∃ ts, parse pattern = .ok ts ∧
    w = ⟨base, ts, pattern.toList.contains '/' || Text.occursIn ['*', '*'] pattern.toList⟩ := by
  rw [new]
  cases parse pattern with
  | error => simp
  | ok ts => simp [eq_comm]

/-- The tokens of a pattern that is watched for the entries of a directory cross no slash by
themselves. -/
theorem isFlat_of_not_recursive (hnew : new base pattern = .ok w) (hentries : w.recursive = false) :
    ∀ t ∈ leavesOf w.tokens, t.IsFlat := by
  obtain ⟨ts, hparse, rfl⟩ := new_eq_ok_iff.1 hnew
  obtain ⟨hslash, hstars⟩ := Bool.or_eq_false_iff.1 hentries
  intro t ht
  refine (parse_stemsFrom hparse t ht).isFlat (by simpa using hslash) fun hoccurs => ?_
  rw [Text.occursIn_iff.2 hoccurs] at hstars
  cases hstars

theorem base_eq (hnew : new base pattern = .ok w) : w.base = base := by
  obtain ⟨ts, -, rfl⟩ := new_eq_ok_iff.1 hnew
  rfl

theorem reachOf_eq_zero_of_bracket_notMem (hnew : new base pattern = .ok w)
    (hbracket : '[' ∉ pattern.toList) :
    reachOf w.tokens = 0 := by
  obtain ⟨ts, hparse, rfl⟩ := new_eq_ok_iff.1 hnew
  refine reachOf_eq_zero ts fun t ht => ?_
  have hstems := parse_stemsFrom hparse t ht
  cases t with
  | oneOf negated ranges => exact absurd hstems hbracket
  | literal | anyByte | anyName | anyDirs | belowDir | throughDirs | either => rfl

theorem components_of_matchesPath (hnew : new base pattern = .ok w) (hentries : w.recursive = false)
    (h : w.matchesPath p = true) :
    base.components <+: p.components ∧ p.components.length ≤ base.components.length + 1 +
      reachOf w.tokens := by
  have hflat := isFlat_of_not_recursive hnew hentries
  rw [matchesPath, base_eq hnew] at h
  split at h
  case h_1 => cases h
  case h_2 rel hrel =>
    have hcomponents := Path.components_of_relativeTo? hrel
    have hslashes := count_le_of_matchesBytes hflat h
    rw [Text.bytes_eq_utf8, count_slash_utf8] at hslashes
    have hlength := rel.length_components_le
    refine ⟨⟨_, hcomponents.symm⟩, ?_⟩
    rw [hcomponents, List.length_append]
    omega

theorem new_spanning (base : Path) {xs : List String} (hxs : ∀ x ∈ xs, IsPlainName x) :
    new base ("[!b]".intercalate xs) = .ok ⟨base, spanning xs, false⟩ := by
  have hnotMem : ∀ c, c ∉ "[!b]".toList → (∀ x ∈ xs, c ∉ x.toList) →
      c ∉ ("[!b]".intercalate xs).toList := by
    intro c hclass hnames hc
    rcases mem_of_mem_intercalate hc with hc | ⟨x, hx, hc⟩
    · exact hclass hc
    · exact hnames x hx hc
  have hslash := hnotMem '/' (by decide) fun x hx => (hxs x hx).entry.2.2
  have hstar := hnotMem '*' (by decide) fun x hx hc => absurd ((hxs x hx).plain '*' hc) (by decide)
  have hstars : Text.occursIn ['*', '*'] ("[!b]".intercalate xs).toList = false := by
    rw [← Bool.not_eq_true, Text.occursIn_iff]
    exact fun hoccurs => hstar (hoccurs.subset List.mem_cons_self)
  refine new_eq_ok_iff.2 ⟨spanning xs, parse_spanning hxs, ?_⟩
  rw [hstars, List.contains_eq_mem, decide_eq_false hslash]
  rfl

theorem matchesPath_spanning (base : Path) {xs : List String} (hne : xs ≠ [])
    (hxs : ∀ x ∈ xs, IsPlainName x) :
    matchesPath ⟨base, spanning xs, false⟩ (base.under xs) = true := by
  rw [matchesPath, base.relativeTo?_under hne fun x hx => (hxs x hx).entry]
  exact matchesBytes_spanning xs

/-- **Patterns that are watched for entries reach below them by classes only, and by classes to any
depth.** What such a pattern matches lies below the directory, one component deep and one more for
each class on the way that admits a slash; without brackets it is an entry of the directory. And to
plain names at any depth there is a pattern that matches the entry at the end of them and is watched
for the entries of the directory alone. -/
theorem classes_reach_below_entries (base : Path) :
    (∀ pattern w p, new base pattern = .ok w → w.recursive = false → w.matchesPath p = true →
      base.components <+: p.components ∧
      p.components.length ≤ base.components.length + 1 + reachOf w.tokens ∧
      ('[' ∉ pattern.toList → p.components.length ≤ base.components.length + 1)) ∧
    ∀ xs, xs ≠ [] → (∀ x ∈ xs, IsPlainName x) →
      ∃ w, new base ("[!b]".intercalate xs) = .ok w ∧ w.recursive = false ∧
      w.matchesPath (base.under xs) = true ∧
        (base.under xs).components = base.components ++ xs.map .name ∧
        reachOf w.tokens + 1 = xs.length := by
  constructor
  · intro pattern w p hnew hentries hmatches
    obtain ⟨hbelow, hlength⟩ := components_of_matchesPath hnew hentries hmatches
    refine ⟨hbelow, hlength, fun hbracket => ?_⟩
    rw [reachOf_eq_zero_of_bracket_notMem hnew hbracket] at hlength
    exact hlength
  · intro xs hne hxs
    exact ⟨_, new_spanning base hxs, rfl, matchesPath_spanning base hne hxs,
      base.components_under fun x hx => (hxs x hx).entry, reachOf_spanning hne⟩

/-- An interpreter two levels below a directory, by a pattern for the entries of the directory. -/
theorem classes_reach_below_entries_interpreter :
    let base : Path := ⟨"/proj"⟩
    let p : Path := ⟨"/proj/bin/python"⟩
    ∃ w, new base "bin[!b]python" = .ok w ∧ w.recursive = false ∧ w.matchesPath p = true ∧
      base.components <+: p.components ∧ p.components.length = base.components.length + 1 +
        reachOf w.tokens := by
  intro base p
  have hnames : ∀ x ∈ ["bin", "python"], IsPlainName x := by decide
  have hpath : base.under ["bin", "python"] = p := by decide
  have htext : "[!b]".intercalate ["bin", "python"] = "bin[!b]python" := by decide
  obtain ⟨hbound, hspan⟩ := classes_reach_below_entries base
  obtain ⟨w, hnew, hentries, hmatches, hcomponents, hreach⟩ :=
    hspan ["bin", "python"] (by decide) hnames
  rw [htext] at hnew
  rw [hpath] at hmatches hcomponents
  obtain ⟨hbelow, -, -⟩ := hbound "bin[!b]python" w p hnew hentries hmatches
  refine ⟨w, hnew, hentries, hmatches, hbelow, ?_⟩
  rw [hcomponents, List.length_append, Nat.add_assoc, Nat.add_comm 1, hreach, List.length_map]

/-- A pattern that is watched for the entries of a directory and matches a path two components below
it. -/
theorem matchesPath_below_entries :
    let base : Path := ⟨"/proj"⟩
    let p : Path := ⟨"/proj/a/c"⟩
    ∃ w, new base "a[!b]c" = .ok w ∧ w.recursive = false ∧ w.matchesPath p = true ∧
      p.components.length = base.components.length + 2 := by
  intro base p
  have hnames : ∀ x ∈ ["a", "c"], IsPlainName x := by decide
  have hpath : base.under ["a", "c"] = p := by decide
  have htext : "[!b]".intercalate ["a", "c"] = "a[!b]c" := by decide
  have hmatches := matchesPath_spanning base (List.cons_ne_nil _ _) hnames
  rw [hpath] at hmatches
  exact ⟨_, htext ▸ new_spanning base hnames, rfl, hmatches, by decide⟩

end WatchPattern

end EnvDiscovery
