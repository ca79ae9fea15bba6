import EnvDiscovery.Proofs.Spellings

/-!
**Paths relative to a directory.**

What is left of a path below a directory names what the path names after the directory. For entries
of the directory, of its entries and so on, it is written as their names with a slash between each
two.

Main definitions:
* `Path.under` — an entry at some depth below a directory.

Main results:
* `Path.passOver_eq_some` — the segments that are passed over spell the given components;
* `Path.components_of_relativeTo?` — **a path is the directory and then what is left of it**;
* `Path.relativeTo?_under` — what is left of an entry at some depth;
* `Path.length_components_le` — a path has at most one component more than it has slashes.
-/

namespace EnvDiscovery.Path

variable {p base rel : Path} {cs : List Component} {segs more rest : List String}

/-! ### Segments that are passed over -/

theorem names_cons_of_trivial {s : String} (h : isTrivial s = true) (segs : List String) :
    names (s :: segs) = names segs := by
  simp [names, h]

theorem names_cons_of_nontrivial {s : String} (h : isTrivial s = false) (segs : List String) :
    names (s :: segs) = componentOf s :: names segs := by
  simp [names, h]

theorem names_dropEndWhile (segs : List String) :
    names (Text.dropEndWhile isTrivial segs) = names segs := by
  rw [names, Text.filter_dropEndWhile, names]

theorem names_dropWhile (segs : List String) : names (segs.dropWhile isTrivial) = names segs := by
  induction segs with
  | nil => rfl
  | cons s segs ih =>
      cases h : isTrivial s with
      | true => rw [List.dropWhile_cons_of_pos h, ih, names_cons_of_trivial h]
      | false => rw [List.dropWhile_cons_of_neg (by rw [h]; exact Bool.false_ne_true)]

theorem passOver_eq_some (h : passOver cs segs = some rest) :
    rest <:+ segs ∧ names segs = cs ++ names rest := by
  fun_induction passOver cs segs with
  | case1 segs =>
      obtain rfl := Option.some.inj h
      exact ⟨List.suffix_refl _, rfl⟩
  | case2 => cases h
  | case3 c cs s segs htrivial ih =>
      obtain ⟨hsuffix, hnames⟩ := ih h
      exact ⟨hsuffix.trans
        (List.suffix_cons s segs), by rw [names_cons_of_trivial htrivial, hnames]⟩
  | case4 cs s segs htrivial ih =>
      obtain ⟨hsuffix, hnames⟩ := ih h
      refine ⟨hsuffix.trans (List.suffix_cons s segs), ?_⟩
      rw [names_cons_of_nontrivial (by simpa using htrivial), hnames, List.cons_append]
  | case5 => cases h

/-- Segments are passed over by what they name, up to slashes and dots after them. -/
theorem passOver_names (segs more : List String) :
    (passOver (names segs) (segs ++ more)).map (List.dropWhile isTrivial) =
      some (more.dropWhile isTrivial) := by
  induction segs with
  | nil => simp [names, passOver]
  | cons s segs ih =>
      cases h : isTrivial s with
      | true =>
          rw [names_cons_of_trivial h]
          cases hnames : names segs with
          | nil =>
              rw [hnames, passOver, Option.map_some] at ih
              rw [passOver, Option.map_some, List.cons_append, List.dropWhile_cons_of_pos h, ih]
          | cons c cs =>
              rw [List.cons_append, passOver, if_pos h, ← hnames, ih]
      | false =>
          rw [names_cons_of_nontrivial h, List.cons_append, passOver, if_neg (by simp [h]),
            if_pos rfl, ih]

/-! ### What is left of a path -/

theorem slash_notMem_of_mem_parts {s : String} (h : s ∈ p.parts.2) : '/' ∉ s.toList := by
  obtain ⟨-, hspell⟩ := p.parts_spec
  exact slash_notMem_of_mem_segments (p := p) (hspell ▸ List.mem_append_right _ h)

/-- The path that begins with the first name of some segments names what they name. -/
theorem components_ofParts_none (hslash : ∀ s ∈ segs, '/' ∉ s.toList) :
    (ofParts none (Text.dropEndWhile isTrivial (segs.dropWhile isTrivial))).components =
      names segs := by
  rw [← names_dropWhile segs, ← names_dropEndWhile]
  have hsub : Text.dropEndWhile isTrivial (segs.dropWhile isTrivial) <+: segs.dropWhile isTrivial :=
    Text.prefix_dropEndWhile _ _
  have hhead := List.head?_dropWhile_not isTrivial segs
  have hmem : ∀ s ∈ segs.dropWhile isTrivial, '/' ∉ s.toList :=
    fun s hs => hslash s ((List.dropWhile_sublist isTrivial).subset hs)
  generalize segs.dropWhile isTrivial = d at hsub hhead hmem
  cases hends : Text.dropEndWhile isTrivial d with
  | nil => decide
  | cons s core =>
      rw [hends] at hsub
      obtain ⟨more, rfl⟩ := hsub
      have hparts : IsParts none (s :: core) := .name core (by simpa using hhead)
      rw [components, hparts.parts_ofParts fun t ht => hmem t (List.mem_append_left _ ht)]
      rfl

theorem components_of_relativeTo? (h : p.relativeTo? base = some rel) :
    p.components = base.components ++ rel.components := by
  have hcomponents : p.components = p.parts.1.toList ++ names p.parts.2 := rfl
  have hbelow : ∀ cs, relativeTo?.below (passOver cs p.parts.2) = some rel →
      names p.parts.2 = cs ++ rel.components := by
    intro cs hcs
    obtain ⟨rest, hrest, rfl⟩ := Option.map_eq_some_iff.1 hcs
    obtain ⟨hsuffix, hnames⟩ := passOver_eq_some hrest
    rw [components_ofParts_none fun s hs => slash_notMem_of_mem_parts (hsuffix.subset hs), hnames]
  have htrimmed := p.components_trimmed
  rw [trimmed] at htrimmed
  unfold relativeTo? at h
  rcases hparts : p.parts with ⟨lead, segs⟩
  rw [hparts] at h hcomponents hbelow htrimmed
  cases hbase : base.components with
  | nil =>
      rw [hbase] at h
      obtain rfl := Option.some.inj h
      rw [List.nil_append, htrimmed]
  | cons c cs =>
      rw [hbase] at h
      cases lead with
      | none =>
          rw [hcomponents, hbelow _ h]
          rfl
      | some lead =>
          obtain ⟨rfl, hrest⟩ := Option.ite_none_right_eq_some.1 h
          rw [hcomponents, hbelow _ hrest]
          rfl

/-! ### Entries at some depth -/

/-- The entry of a directory at the end of some names. -/
def under (base : Path) (xs : List String) : Path :=
  xs.foldl (· / ·) base

theorem under_cons (base : Path) (x : String) (xs : List String) :
    base.under (x :: xs) = (base / x).under xs := rfl

theorem components_under (base : Path) {xs : List String} (h : ∀ x ∈ xs, IsEntryName x) :
    (base.under xs).components = base.components ++ xs.map .name := by
  induction xs generalizing base with
  | nil => exact (List.append_nil _).symm
  | cons x xs ih =>
      obtain ⟨hx, hxs⟩ := List.forall_mem_cons.1 h
      rw [under_cons, ih _ hxs, components_div base hx, List.append_assoc]
      rfl

/-- An entry at some depth is spelled as its directory, and then its names. -/
theorem parts_under (base : Path) {xs : List String} (hne : xs ≠ []) (h : ∀ x ∈ xs, IsEntryName x) :
    ∃ segs, (base.under xs).parts = (base.parts.1, segs ++ xs) ∧
      (base.parts.2 = segs ∨ base.parts.2 = segs ++ [""]) := by
  induction xs generalizing base with
  | nil => exact absurd rfl hne
  | cons x xs ih =>
      obtain ⟨hx, hxs⟩ := List.forall_mem_cons.1 h
      obtain ⟨segs, hparts, hbase⟩ := base.parts_div hx
      rw [under_cons]
      cases xs with
      | nil => exact ⟨segs, hparts, hbase⟩
      | cons y ys =>
          obtain ⟨segs', hparts', hdir⟩ := ih (base / x) (List.cons_ne_nil _ _) hxs
          rw [hparts] at hparts' hdir
          -- an entry does not end in a slash
          have hwhole : segs ++ [x] = segs' := by
            refine hdir.resolve_right fun hslash => ?_
            obtain rfl : x = "" := (List.cons.inj (List.append_inj' hslash rfl).2).1
            exact absurd hx.1 (by decide)
          refine ⟨segs, ?_, hbase⟩
          rw [hparts', ← hwhole, List.append_assoc]
          rfl

theorem dropWhile_isTrivial_eq_self {xs : List String} (h : ∀ x ∈ xs, IsEntryName x) :
    xs.dropWhile isTrivial = xs := by
  cases xs with
  | nil => rfl
  | cons x xs => exact List.dropWhile_cons_of_neg (by simp [(h x List.mem_cons_self).1])

theorem dropEndWhile_isTrivial_eq_self {xs : List String} (h : ∀ x ∈ xs, IsEntryName x) :
    Text.dropEndWhile isTrivial xs = xs := by
  rcases List.eq_nil_or_concat xs with rfl | ⟨ys, x, rfl⟩
  · rfl
  · rw [List.concat_eq_append] at h ⊢
    exact Text.dropEndWhile_concat_of_neg (h x List.mem_concat_self).1 ys

/-- A relative path begins with a name. -/
theorem eq_nil_of_names_eq_nil {xs : List String} (hnames : names segs = []) (hne : xs ≠ [])
    (hparts : IsParts none (segs ++ xs)) : segs = [] := by
  cases segs with
  | nil => rfl
  | cons s segs =>
      rw [List.cons_append] at hparts
      generalize hrest : segs ++ xs = rest at hparts
      cases hparts with
      | empty => exact absurd (List.append_eq_nil_iff.1 hrest).2 hne
      | name _ hs => simp [names_cons_of_nontrivial hs] at hnames

/-- **What is left of an entry at some depth is its names**, with a slash between each two. -/
theorem relativeTo?_under (base : Path) {xs : List String} (hne : xs ≠ [])
    (h : ∀ x ∈ xs, IsEntryName x) :
    (base.under xs).relativeTo? base = some ⟨"/".intercalate xs⟩ := by
  obtain ⟨segs, hparts, hdir⟩ := base.parts_under hne h
  have hnames : base.components = base.parts.1.toList ++ names segs := by
    have hcomponents : base.components = base.parts.1.toList ++ names base.parts.2 := rfl
    rcases hdir with hdir | hdir
    · rw [hcomponents, hdir]
    · rw [hcomponents, hdir, names_append, names_cons_of_trivial (by decide)]
      simp [names]
  have hbelow : relativeTo?.below (passOver (names segs) (segs ++ xs)) =
      some ⟨"/".intercalate xs⟩ := by
    obtain ⟨rest, hrest, hdrop⟩ := Option.map_eq_some_iff.1 (passOver_names segs xs)
    rw [relativeTo?.below, hrest, Option.map_some, hdrop, dropWhile_isTrivial_eq_self h,
      dropEndWhile_isTrivial_eq_self h]
    rfl
  unfold relativeTo?
  rw [hparts, hnames]
  cases hlead : base.parts.1 with
  | some lead =>
      dsimp only [Option.toList_some, List.singleton_append]
      rw [if_pos rfl, hbelow]
  | none =>
      dsimp only [Option.toList_none, List.nil_append]
      cases hcs : names segs with
      | cons c cs =>
          rw [hcs] at hbelow
          exact hbelow
      | nil =>
          have hbegins : IsParts none (segs ++ xs) := by
            simpa [hparts, hlead] using (base.under xs).parts_spec.1
          obtain rfl : segs = [] := eq_nil_of_names_eq_nil hcs hne hbegins
          dsimp only
          rw [List.nil_append, dropEndWhile_isTrivial_eq_self h]
          rfl

/-! ### Components and slashes -/

theorem length_splitOn (c : Char) (cs : List Char) : (cs.splitOn c).length = cs.count c + 1 := by
  induction cs with
  | nil => simp [List.splitOn_nil]
  | cons d cs ih =>
      rw [List.splitOn_cons_eq_if_modifyHead]
      split
      case isTrue hd => rw [List.length_cons, ih, eq_of_beq hd, List.count_cons_self]
      case isFalse hd => 
        rw [List.length_modifyHead, ih, List.count_cons_of_ne (by simpa using hd)]

theorem length_components_le (p : Path) : p.components.length ≤ p.text.toList.count '/' + 1 := by
  obtain ⟨hparts, hspell⟩ := p.parts_spec
  have hsegments : p.segments.length = p.text.toList.count '/' + 1 := by
    rw [segments, List.length_map, length_splitOn]
  have hlead : p.parts.1.toList.length ≤ (opening p.parts.1).length := by
    generalize p.parts.1 = lead, p.parts.2 = segs at hparts
    cases hparts <;> simp [opening]
  have hnames : (names p.parts.2).length ≤ p.parts.2.length := by
    rw [names, List.length_map]
    exact List.length_filter_le _ _
  calc p.components.length = p.parts.1.toList.length + (names p.parts.2).length :=
    List.length_append
    _ ≤ (opening p.parts.1).length + p.parts.2.length := Nat.add_le_add hlead hnames
    _ = p.text.toList.count '/' + 1 := by rw [← List.length_append, ← hspell, hsegments]

end EnvDiscovery.Path
