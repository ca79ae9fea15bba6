import EnvDiscovery.Path.Layout
import Mathlib.Data.List.Induction

/-!
**Entries of directories.**

A directory lists its entries as its own path with a name after it. The way back is by components:
the last one is dropped, and with it the slashes and single dots before it. So the directory of an
entry is the listed directory up to what its spelling has at the end, and an entry that is a
directory itself is found again as it is written.

Main definitions:
* `Path.IsEntryName` — the names that a directory can list;
* `Path.IsParts` — the leading components and further segments that a path can have;
* `Path.trimmed` — a path without the slashes and single dots at its end.

Main results:
* `Path.segments_join`, `Path.parts_join`, `Path.parts_div` — the spelling of what lies below a
  directory;
* `Path.components_trimmed`, `Path.components_div` — its components;
* `Path.parent?_div`, `Path.fileName?_div` — **the directory and the name of an entry**;
* `Path.homeOf?_scripts` — the home of an executable among the scripts of a home.
-/

namespace EnvDiscovery

/-! ### The end of a list -/

namespace Text

variable {α : Type} {p : α → Bool} {x : α}

theorem dropEndWhile_concat_of_neg (h : p x = false) (xs : List α) :
    dropEndWhile p (xs ++ [x]) = xs ++ [x] := by
  simp [dropEndWhile, h]

theorem dropEndWhile_concat_of_pos (h : p x = true) (xs : List α) :
    dropEndWhile p (xs ++ [x]) = dropEndWhile p xs := by
  simp [dropEndWhile, h]

theorem filter_dropEndWhile (p : α → Bool) (xs : List α) :
    (dropEndWhile p xs).filter (!p ·) = xs.filter (!p ·) := by
  induction xs using List.reverseRecOn with
  | nil => rfl
  | append_singleton xs x ih =>
      cases h : p x with
      | true => simp [dropEndWhile_concat_of_pos h, ih, h]
      | false => rw [dropEndWhile_concat_of_neg h]

theorem prefix_dropEndWhile (p : α → Bool) (xs : List α) : dropEndWhile p xs <+: xs := by
  rw [← List.reverse_suffix, dropEndWhile, List.reverse_reverse]
  exact List.dropWhile_suffix _

theorem notMem_of_mem_splitOn {c : Char} {cs s : List Char} (h : s ∈ cs.splitOn c) : c ∉ s := by
  induction cs generalizing s with
  | nil =>
      obtain rfl : s = [] := by simpa [List.splitOn_nil] using h
      exact List.not_mem_nil
  | cons d cs ih =>
      rw [List.splitOn_cons_eq_if_modifyHead] at h
      split at h
      · rcases List.mem_cons.1 h with rfl | h
        · exact List.not_mem_nil
        · exact ih h
      · rename_i hd
        obtain ⟨t, ts, hts⟩ := List.exists_cons_of_ne_nil (List.splitOn_ne_nil c cs)
        rw [hts, List.modifyHead_cons] at h
        rcases List.mem_cons.1 h with rfl | h
        · have ht : c ∉ t := ih (by rw [hts]; exact List.mem_cons_self)
          have hne : c ≠ d := fun heq => hd (by rw [heq]; exact beq_self_eq_true d)
          simp [hne, ht]
        · exact ih (by rw [hts]; exact List.mem_cons_of_mem _ h)

end Text

namespace Path

variable {p : Path} {x : String} {lead : Option Component} {segs segs' : List String}

/-! ### Segments -/

/-- A name that a directory can list: it names something, it is not the way up, and it has no
slash. -/
def IsEntryName (s : String) : Prop :=
  isTrivial s = false ∧ s ≠ ".." ∧ '/' ∉ s.toList

instance : DecidablePred IsEntryName := fun _ => inferInstanceAs (Decidable (_ ∧ _ ∧ _))

theorem slash_notMem_of_mem_segments {s : String} (h : s ∈ p.segments) : '/' ∉ s.toList := by
  obtain ⟨cs, hcs, rfl⟩ := List.mem_map.1 h
  rw [String.toList_ofList]
  exact Text.notMem_of_mem_splitOn hcs

theorem segments_ne_nil (p : Path) : p.segments ≠ [] := by
  simp [segments, List.splitOn_ne_nil]

theorem intercalate_segments (p : Path) : "/".intercalate p.segments = p.text := by
  have hread : String.toList ∘ String.ofList = id := funext fun _ => String.toList_ofList
  apply String.toList_inj.1
  rw [String.toList_intercalate, segments, List.map_map, hread, List.map_id]
  exact List.intercalate_splitOn '/'

theorem segments_intercalate (hne : segs ≠ []) (h : ∀ s ∈ segs, '/' ∉ s.toList) :
    (⟨"/".intercalate segs⟩ : Path).segments = segs := by
  have hslash : "/".toList = ['/'] := rfl
  rw [segments, String.toList_intercalate, hslash, List.splitOn_intercalate]
  · simp [Function.comp_def]
  · simpa using h
  · simpa using hne

theorem segments_ne_of_isEmpty (h : p.text.isEmpty = false) : p.segments ≠ [""] := by
  intro hsegs
  have htext : p.text = "" := by rw [← p.intercalate_segments, hsegs]; rfl
  simp [htext] at h

theorem segments_of_slash_notMem (hx : '/' ∉ x.toList) : (⟨x⟩ : Path).segments = [x] := by
  rw [segments, List.splitOn_eq_singleton hx, List.map_singleton, String.ofList_toList]

theorem isAbsolute_of_slash_notMem (hx : '/' ∉ x.toList) : (⟨x⟩ : Path).isAbsolute = false := by
  cases hhead : x.toList with
  | nil => simp [isAbsolute, hhead]
  | cons c cs =>
      have hne : c ≠ '/' := fun h => hx (by simp [hhead, h])
      simp [isAbsolute, hhead, hne]

/-- A relative path goes on where a path ends; a slash at its end is not repeated. -/
theorem segments_join {q : Path} (hp : p.text.isEmpty = false) (hq : q.isAbsolute = false) :
    ∃ segs, (p.join q).segments = segs ++ q.segments ∧
    (p.segments = segs ∨ p.segments = segs ++ [""]) := by
  by_cases hlast : p.text.toList.getLast? = some '/'
  · obtain ⟨cs, hcs⟩ := List.getLast?_eq_some_iff.1 hlast
    refine ⟨(cs.splitOn '/').map String.ofList, ?_, .inr ?_⟩
    · have hjoin : p.join q = ⟨p.text ++ q.text⟩ := by simp [join, hq, hp, hlast]
      rw [hjoin, segments, String.toList_append, hcs, List.append_assoc, List.singleton_append,
        List.splitOn_append_cons_self, List.map_append, segments]
    · rw [segments, hcs, List.splitOn_append_cons_self, List.map_append]
      simp
  · refine ⟨p.segments, ?_, .inl rfl⟩
    have hjoin : p.join q = ⟨p.text ++ "/" ++ q.text⟩ := by simp [join, hq, hp, hlast]
    have hslash : "/".toList = ['/'] := rfl
    rw [hjoin, segments, String.toList_append, String.toList_append, hslash, List.append_assoc,
      List.singleton_append, List.splitOn_append_cons_self, List.map_append, segments, segments]

/-! ### Parts -/

/-- The segments that spell the leading component. -/
def opening : Option Component → List String
  | some .root => [""]
  | some .here => ["."]
  | _ => []

/-- The leading components and further segments that a path can have. -/
inductive IsParts : Option Component → List String → Prop where
  /-- The empty path. -/
  | empty : IsParts none [""]
  /-- A path from the root. -/
  | root (s : String) (rest : List String) : IsParts (some .root) (s :: rest)
  /-- A path that begins with a single dot. -/
  | here (rest : List String) : IsParts (some .here) rest
  /-- A path that begins with a name or with the way up. -/
  | name {s : String} (rest : List String) (h : isTrivial s = false) : IsParts none (s :: rest)

namespace IsParts

/-- A path is taken apart in one way. -/
theorem parts_eq (h : IsParts lead segs) (hp : p.segments = opening lead ++ segs) :
    p.parts = (lead, segs) := by
  cases h with
  | empty | root | here => simp [parts, hp, opening]
  | @name s rest hs =>
      obtain ⟨hempty, hhere⟩ : s ≠ "" ∧ s ≠ "." := by simpa [isTrivial] using hs
      simp [parts, hp, opening, hempty, hhere]

/-- Only the empty path begins otherwise when it goes on. -/
theorem append (h : IsParts lead segs) (hne : opening lead ++ segs ≠ [""]) (more : List String) :
    IsParts lead (segs ++ more) := by
  cases h with
  | empty => exact absurd rfl hne
  | root s rest => exact .root s _
  | here => exact .here _
  | name rest hs => exact .name _ hs

/-- Segments may stand where there was nothing after a last slash. -/
theorem append_at_slash (h : IsParts lead (segs ++ [""]))
    (hne : opening lead ++ (segs ++ [""]) ≠ [""]) {more : List String} (hmore : more ≠ []) :
    IsParts lead (segs ++ more) := by
  generalize hall : segs ++ [""] = all at h hne
  cases h with
  | empty => exact absurd rfl hne
  | root =>
      obtain ⟨s, rest, hcons⟩ :=
        List.exists_cons_of_ne_nil (List.append_ne_nil_of_right_ne_nil segs hmore)
      rw [hcons]
      exact .root s rest
  | here => exact .here _
  | name _ hs =>
      cases segs with
      | nil =>
          obtain ⟨rfl, -⟩ := List.cons.inj hall
          cases hs
      | cons s segs =>
          obtain ⟨rfl, -⟩ := List.cons.inj hall
          exact .name _ hs

theorem of_prefix_of_ne (h : IsParts lead segs) (hp : segs' <+: segs) (hne : segs' ≠ []) :
    IsParts lead segs' := by
  obtain ⟨s, rest, rfl⟩ := List.exists_cons_of_ne_nil hne
  obtain ⟨more, hmore⟩ := hp
  cases h with
  | empty =>
      obtain ⟨rfl, rfl, -⟩ : s = "" ∧ rest = [] ∧ more = [] := by simpa using hmore
      exact .empty
  | root => exact .root s rest
  | here => exact .here _
  | name _ hs =>
      obtain ⟨rfl, -⟩ := List.cons.inj hmore
      exact .name rest hs

theorem ofParts_eq (h : IsParts lead segs) :
    ofParts lead segs = ⟨"/".intercalate (opening lead ++ segs)⟩ := by
  cases h with
  | empty => rfl
  | root s rest => simp [ofParts, opening]
  | here => cases segs <;> simp [ofParts, opening, Component.text]
  | name => rfl

/-- A path that is made up of parts has these parts. -/
theorem parts_ofParts (h : IsParts lead segs) (hslash : ∀ s ∈ segs, '/' ∉ s.toList) :
    (ofParts lead segs).parts = (lead, segs) := by
  have hopening : ∀ s ∈ opening lead, '/' ∉ s.toList := by cases h <;> simp [opening]
  refine h.parts_eq ?_
  rw [h.ofParts_eq, segments_intercalate]
  · cases h <;> simp [opening]
  · exact List.forall_mem_append.2 ⟨hopening, hslash⟩

/-- A leading component alone is a path. -/
theorem components_ofParts_nil (h : IsParts lead segs) :
    (ofParts lead []).components = lead.toList := by
  cases h <;> decide

end IsParts

theorem parts_spec (p : Path) :
    IsParts p.parts.1 p.parts.2 ∧ p.segments = opening p.parts.1 ++ p.parts.2 := by
  obtain ⟨s, rest, hp⟩ := List.exists_cons_of_ne_nil p.segments_ne_nil
  obtain ⟨lead, segs, h, hsegs⟩ : ∃ lead segs, IsParts lead segs ∧
      p.segments = opening lead ++ segs := by
    by_cases hhere : s = "."
    · exact ⟨_, _, .here rest, by rw [hp, hhere]; rfl⟩
    · by_cases hempty : s = ""
      · cases rest with
        | nil => exact ⟨_, _, .empty, by rw [hp, hempty]; rfl⟩
        | cons t rest => exact ⟨_, _, .root t rest, by rw [hp, hempty]; rfl⟩
      · exact ⟨_, _, .name rest (by simp [isTrivial, hhere, hempty]), hp⟩
  rw [h.parts_eq hsegs]
  exact ⟨h, hsegs⟩

/-- The parts of a path make it up. -/
theorem ofParts_parts (p : Path) : ofParts p.parts.1 p.parts.2 = p := by
  obtain ⟨hparts, hspell⟩ := p.parts_spec
  rw [hparts.ofParts_eq, ← hspell, intercalate_segments]

/-- A relative path goes on where the parts of a path end. -/
theorem parts_join {q : Path} (hp : p.text.isEmpty = false) (hq : q.isAbsolute = false) :
    ∃ segs, (p.join q).parts = (p.parts.1, segs ++ q.segments) ∧
    (p.parts.2 = segs ∨ p.parts.2 = segs ++ [""]) := by
  obtain ⟨all, hall, hdir⟩ := segments_join hp hq
  obtain ⟨hparts, hspell⟩ := p.parts_spec
  have hne : opening p.parts.1 ++ p.parts.2 ≠ [""] := hspell ▸ segments_ne_of_isEmpty hp
  rcases hdir with hdir | hdir
  · refine ⟨p.parts.2, (hparts.append hne _).parts_eq ?_, .inl rfl⟩
    rw [hall, ← hdir, hspell, List.append_assoc]
  · rcases List.eq_nil_or_concat p.parts.2 with hnil | ⟨segs, last, hconcat⟩
    · -- only a single dot has no further segments, and it does not end in a slash
      rw [hnil] at hparts hspell
      generalize p.parts.1 = lead at hparts hspell
      cases hparts
      cases all <;> simp [hspell, opening] at hdir
    · rw [List.concat_eq_append] at hconcat
      obtain ⟨rfl, rfl⟩ : opening p.parts.1 ++ segs = all ∧ last = "" := by
        rw [hspell, hconcat, ← List.append_assoc] at hdir
        exact (List.append_inj' hdir rfl).imp_right fun h => (List.cons.inj h).1
      rw [hconcat] at hparts hne
      refine ⟨segs, (hparts.append_at_slash hne q.segments_ne_nil).parts_eq ?_, .inr hconcat⟩
      rw [hall, List.append_assoc]

/-- The parts of an entry are those of its directory and its name. -/
theorem parts_div (p : Path) (hx : IsEntryName x) :
    ∃ segs, (p / x).parts = (p.parts.1, segs ++ [x]) ∧
    (p.parts.2 = segs ∨ p.parts.2 = segs ++ [""]) := by
  have hname : (⟨x⟩ : Path).segments = [x] := segments_of_slash_notMem hx.2.2
  change ∃ segs, (p.join ⟨x⟩).parts = _ ∧ _
  cases hempty : p.text.isEmpty with
  | true =>
      -- the entry of the empty path is its name alone
      obtain rfl : p = ⟨""⟩ := congrArg Path.mk (String.isEmpty_iff.1 hempty)
      have hjoin : (⟨""⟩ : Path).join ⟨x⟩ = ⟨x⟩ := by simp [join]
      rw [hjoin]
      exact ⟨[], (IsParts.name [] hx.1).parts_eq hname, .inr (by decide)⟩
  | false =>
      rw [← hname]
      exact parts_join hempty (isAbsolute_of_slash_notMem hx.2.2)

/-! ### Paths without slashes and dots at their ends -/

/-- The path without the slashes and single dots at its end. -/
def trimmed (p : Path) : Path :=
  ofParts p.parts.1 (Text.dropEndWhile isTrivial p.parts.2)

/-- A path that ends earlier names what its segments name. -/
theorem components_ofParts_prefix (h : segs <+: p.parts.2) :
    (ofParts p.parts.1 (Text.dropEndWhile isTrivial segs)).components =
      p.parts.1.toList ++ (segs.filter (!isTrivial ·)).map componentOf := by
  obtain ⟨hparts, hspell⟩ := p.parts_spec
  rw [← Text.filter_dropEndWhile isTrivial segs]
  have hsub : Text.dropEndWhile isTrivial segs <+: p.parts.2 :=
    (Text.prefix_dropEndWhile _ _).trans h
  by_cases hnil : Text.dropEndWhile isTrivial segs = []
  · rw [hnil, hparts.components_ofParts_nil]
    simp
  · have hslash : ∀ s ∈ Text.dropEndWhile isTrivial segs, '/' ∉ s.toList := by
      intro s hs
      refine slash_notMem_of_mem_segments (p := p) ?_
      rw [hspell]
      exact List.mem_append_right _ (hsub.subset hs)
    rw [components, (hparts.of_prefix_of_ne hsub hnil).parts_ofParts hslash]

/-- What is trimmed names nothing. -/
theorem components_trimmed (p : Path) : p.trimmed.components = p.components :=
  components_ofParts_prefix (List.prefix_refl _)

theorem key_trimmed (p : Path) : p.trimmed.key = p.key := by
  rw [key, key, normalize, normalize, resolved, resolved, components_trimmed]

theorem fileName?_trimmed (p : Path) : p.trimmed.fileName? = p.fileName? := by
  rw [fileName?, fileName?, components_trimmed]

/-! ### Entries -/

/-- An entry is written without slashes and dots at its end. -/
theorem trimmed_div (p : Path) (hx : IsEntryName x) : (p / x).trimmed = p / x := by
  obtain ⟨segs, hparts, -⟩ := p.parts_div hx
  have hwhole := (p / x).ofParts_parts
  rw [hparts] at hwhole
  rw [trimmed, hparts, Text.dropEndWhile_concat_of_neg hx.1, hwhole]

/-- The directory of an entry is the one that lists it. -/
theorem parent?_div (p : Path) (hx : IsEntryName x) : (p / x).parent? = some p.trimmed := by
  obtain ⟨segs, hparts, hp⟩ := p.parts_div hx
  have hdir : Text.dropEndWhile isTrivial segs = Text.dropEndWhile isTrivial p.parts.2 := by
    rcases hp with hp | hp
    · rw [hp]
    · rw [hp, Text.dropEndWhile_concat_of_pos rfl]
  obtain ⟨s, rest, hcons⟩ : ∃ s rest, segs ++ [x] = s :: rest :=
    List.exists_cons_of_ne_nil (by simp)
  have hcore : Text.dropEndWhile isTrivial (segs ++ [x]) = s :: rest := by
    rw [Text.dropEndWhile_concat_of_neg hx.1, hcons]
  have hlast : (s :: rest).dropLast = segs := by rw [← hcons, List.dropLast_concat]
  rw [parent?, hparts]
  simp only [hcore, hlast, hdir, trimmed]

theorem components_div (p : Path) (hx : IsEntryName x) :
    (p / x).components = p.components ++ [.name x] := by
  obtain ⟨segs, hparts, hp⟩ := p.parts_div hx
  have hdir : segs.filter (!isTrivial ·) = p.parts.2.filter (!isTrivial ·) := by
    rcases hp with hp | hp
    · rw [hp]
    · rw [hp]
      simp [isTrivial]
  rw [components, components, hparts, List.filter_append, hdir]
  simp [hx.1, componentOf, hx.2.1]

theorem fileName?_div (p : Path) (hx : IsEntryName x) : (p / x).fileName? = some x := by
  rw [fileName?, components_div p hx, List.getLast?_concat]

theorem isEntryName_scriptsDir : IsEntryName scriptsDir := by decide

/-- An executable among the scripts of a home belongs to that home. -/
theorem homeOf?_scripts (home : Path) (hx : IsEntryName x) :
    (home / scriptsDir / x).homeOf? = some home.trimmed := by
  rw [homeOf?, parent?_div _ hx, trimmed_div _ isEntryName_scriptsDir]
  simp only [Option.bind_eq_bind, Option.bind_some, fileName?_div _ isEntryName_scriptsDir,
    parent?_div _ isEntryName_scriptsDir]
  rfl

end Path

end EnvDiscovery
