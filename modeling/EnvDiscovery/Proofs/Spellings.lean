import EnvDiscovery.Proofs.Entries
import EnvDiscovery.Proofs.Places

/-!
**Spellings of a path.**

Repeated slashes and single dots inside a path, and what it has of them at its end, are a matter of
spelling: they do not show in its components. Whatever is derived from a path, its parent, the home
around it and what lies below it, is the same for two spellings, up to the spelling of the result.

Main definitions:
* `Path.names` — what further segments name.

Main results:
* `Path.map_components_parent?` — the components of a parent;
* `Path.map_components_homeOf?_congr` — the home of an executable does not depend on the spelling;
* `Path.components_join`, `Path.components_div_congr` — what lies below a directory.
-/

namespace EnvDiscovery

theorem Text.eq_false_of_dropEndWhile {α : Type} {p : α → Bool} {xs ys : List α} {x : α}
    (h : dropEndWhile p xs = ys ++ [x]) : p x = false := by
  have hreverse : xs.reverse.dropWhile p = x :: ys.reverse := by
    rw [← List.reverse_inj, ← dropEndWhile, h]
    simp
  have hhead := List.head?_dropWhile_not p xs.reverse
  rw [hreverse] at hhead
  simpa using hhead

namespace Path

variable {p q : Path}

/-! ### The same components -/

theorem sameComponents_iff : p.sameComponents q = true ↔ p.components = q.components := by
  simp [sameComponents]

theorem normalize_eq_of_components (h : p.components = q.components) :
    p.normalize = q.normalize := by
  rw [normalize, normalize, resolved, resolved, h]

theorem key_eq_of_components (h : p.components = q.components) : p.key = q.key := by
  rw [key, key, normalize_eq_of_components h]

theorem within_congr (h : p.components = q.components) (dir : Path) :
    dir.within p = dir.within q := by
  rw [within, within, normalize_eq_of_components h]

theorem within_congr_left (h : p.components = q.components) (dir : Path) :
    p.within dir = q.within dir := by
  rw [within, within, normalize_eq_of_components h]

theorem samePlace_of_components (h : p.components = q.components) : p.samePlace q = true := by
  rw [samePlace_iff, key_eq_of_components h]

theorem fileName?_congr (h : p.components = q.components) : p.fileName? = q.fileName? := by
  rw [fileName?, fileName?, h]

/-- Paths that may be missing are missing together, or have the same components. -/
theorem map_components_cases {o o' : Option Path} (h : o.map components = o'.map components) :
    (o = none ∧ o' = none) ∨ ∃ p p', o = some p ∧ o' = some p' ∧ p.components = p'.components := by
  cases o with
  | none =>
      rw [Option.map_none, eq_comm, Option.map_eq_none_iff] at h
      exact .inl ⟨rfl, h⟩
  | some p =>
      rw [Option.map_some, eq_comm, Option.map_eq_some_iff] at h
      obtain ⟨p', hp', hcomponents⟩ := h
      exact .inr ⟨p, p', rfl, hp', hcomponents.symm⟩

/-! ### Parents and homes -/

/-- The parent of a path has its components but the last. The root and the empty path have none. -/
theorem map_components_parent? (p : Path) :
    p.parent?.map components =
      if p.components = [] ∨ p.components = [.root] then none else some p.components.dropLast := by
  obtain ⟨hparts, -⟩ := p.parts_spec
  have hwhole : p.components =
      p.parts.1.toList ++ ((Text.dropEndWhile isTrivial p.parts.2).filter (!isTrivial ·)).map
        componentOf := by
    rw [Text.filter_dropEndWhile]
    rfl
  rcases List.eq_nil_or_concat (Text.dropEndWhile isTrivial p.parts.2) with hcore | ⟨segs, x, hcore⟩
  · rw [hwhole, hcore]
    simp only [parent?, hcore]
    clear hwhole hcore
    generalize p.parts.1 = lead at hparts ⊢
    generalize p.parts.2 = segs at hparts
    cases hparts <;> decide
  · rw [List.concat_eq_append] at hcore
    have hx : isTrivial x = false := Text.eq_false_of_dropEndWhile hcore
    have hlast : p.components =
        (p.parts.1.toList ++ (segs.filter (!isTrivial ·)).map componentOf) ++ [componentOf x] := by
      rw [hwhole, hcore]
      simp [hx]
    have hparent : p.parent? = some (ofParts p.parts.1 (Text.dropEndWhile isTrivial segs)) := by
      obtain ⟨s, rest, hcons⟩ : ∃ s rest, segs ++ [x] = s :: rest :=
        List.exists_cons_of_ne_nil (by simp)
      have hdrop : (s :: rest).dropLast = segs := by rw [← hcons, List.dropLast_concat]
      rw [parent?]
      simp only [hcore, hcons, hdrop]
    have hsub : segs <+: p.parts.2 :=
      (List.prefix_append segs [x]).trans (hcore ▸ Text.prefix_dropEndWhile _ _)
    have hnamed : ¬(p.components = [] ∨ p.components = [.root]) := by
      rw [hlast]
      rintro (h | h)
      · simp at h
      · have hroot : componentOf x = .root := by simpa using congrArg List.getLast? h
        unfold componentOf at hroot
        split at hroot <;> cases hroot
    rw [hparent, Option.map_some, components_ofParts_prefix hsub, if_neg hnamed, hlast,
      List.dropLast_concat]

theorem map_components_parent?_congr (h : p.components = q.components) :
    p.parent?.map components = q.parent?.map components := by
  rw [map_components_parent?, map_components_parent?, h]

/-- The home of an executable does not depend on the spelling. -/
theorem map_components_homeOf?_congr (h : p.components = q.components) :
    p.homeOf?.map components = q.homeOf?.map components := by
  rw [homeOf?, homeOf?]
  rcases map_components_cases (map_components_parent?_congr h) with
    ⟨hp, hq⟩ | ⟨dir, dir', hp, hq, hdir⟩
  · rw [hp, hq]
  · rw [hp, hq]
    dsimp only [Option.bind_eq_bind, Option.bind_some]
    rw [fileName?_congr hdir]
    cases dir'.fileName? with
    | none => rfl
    | some name =>
        dsimp only [Option.bind_some]
        split
        · exact map_components_parent?_congr hdir
        · rw [Option.map_some, Option.map_some, hdir]

/-! ### Joined paths -/

/-- What further segments name. -/
def names (segs : List String) : List Component :=
  (segs.filter (!isTrivial ·)).map componentOf

theorem names_append (segs segs' : List String) :
    names (segs ++ segs') = names segs ++ names segs' := by
  simp [names]

/-- A relative path names what is below. -/
theorem components_join {x : Path} (hp : p.text.isEmpty = false) (hx : x.isAbsolute = false) :
    (p.join x).components = p.components ++ names x.segments := by
  obtain ⟨segs, hparts, hdir⟩ := parts_join hp hx
  have hsame : names p.parts.2 = names segs := by
    rcases hdir with hdir | hdir
    · rw [hdir]
    · rw [hdir, names_append]
      exact List.append_nil _
  have hnames : p.components = p.parts.1.toList ++ names p.parts.2 := rfl
  rw [components, hparts, hnames, hsame, List.append_assoc, ← names_append]
  rfl

/-- Only the empty path names nothing. -/
theorem components_eq_nil_iff : p.components = [] ↔ p.text.isEmpty = true := by
  constructor
  · intro h
    obtain ⟨hparts, hspell⟩ := p.parts_spec
    obtain ⟨hlead, hnames⟩ : p.parts.1.toList = [] ∧ names p.parts.2 = [] :=
      List.append_eq_nil_iff.1 h
    rw [Option.toList_eq_nil_iff] at hlead
    rw [hlead] at hparts hspell
    generalize p.parts.2 = segs at hparts hspell hnames
    cases hparts with
    | empty => rw [← p.intercalate_segments, hspell]; rfl
    | name rest hs => simp [names, hs] at hnames
  · intro h
    obtain ⟨text⟩ := p
    obtain rfl : text = "" := String.isEmpty_iff.1 h
    decide

/-- What lies below two spellings of one directory is the same but for the spelling. -/
theorem components_div_congr (h : p.components = q.components) (x : String) :
    (p / x).components = (q / x).components := by
  change (p.join ⟨x⟩).components = (q.join ⟨x⟩).components
  cases hx : (⟨x⟩ : Path).isAbsolute with
  | true => simp [join, hx]
  | false =>
      cases hp : p.text.isEmpty with
      | true =>
          have hq : q.text.isEmpty = true := by
            rw [← components_eq_nil_iff, ← h, components_eq_nil_iff, hp]
          simp [join, hp, hq]
      | false =>
          have hq : q.text.isEmpty = false := by
            rw [← Bool.not_eq_true, ← components_eq_nil_iff, ← h, components_eq_nil_iff, hp]
            decide
          rw [components_join hp hx, components_join hq hx, h]

end Path

end EnvDiscovery
