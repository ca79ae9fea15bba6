import EnvDiscovery.Proofs.ShownNames

/-!
**Normal forms of paths.**

What resolution leaves of a path is where the path begins, the names that no double dot has taken
back, and at most one double dot before them: of the double dots that find no name, every second one
takes back the one before it. The plain spelling of such a list is read back as it was. So a
normalised path is not changed again, two paths are taken for the same place exactly if they are
resolved to components that are shown alike, and one place contains another exactly if its
components open those of the other. Stray bytes are told apart by the second and not by the first.

Main definitions:
* `Path.startOf` — the component at which an absolute path begins;
* `Path.Component.IsStep` — what can come after it in a normal path;
* `Path.Trail`, `Path.trail` — what is left of a path, with all double dots that found no name.

Main results:
* `Path.Trail.push_stack`, `Path.resolved_eq` — resolution, one component at a time and of a whole
  path;
* `Path.components_ofComponents` — the plain spelling is read back;
* `Path.components_normalize`, `Path.resolved_normalize` — the components of a normalised path;
* `Path.key_eq_iff`, `Path.within_iff` — equality and containment are about resolved components;
* `Path.containment_orders_places` — **containment is a tree order on places**, as long as they have
  no stray bytes.
-/

namespace EnvDiscovery.Path

variable {p q r : Path}

/-! ### The beginning and the steps of a path -/

/-- The component at which an absolute path begins. A relative path has none. -/
def startOf (rooted : Bool) : List Component :=
  if rooted then [.root] else []

/-- A path is absolute if and only if the root is set apart from its segments. -/
theorem isAbsolute_iff : p.isAbsolute = true ↔ p.parts.1 = some .root := by
  obtain ⟨-, hspell⟩ := p.parts_spec
  have hsegments : p.segments = (p.text.toList.splitOn '/').map String.ofList := rfl
  cases htext : p.text.toList with
  | nil =>
      have hempty : p.parts = (none, [""]) := IsParts.empty.parts_eq (by rw [hsegments, htext]; rfl)
      simp [isAbsolute, htext, hempty]
  | cons c cs =>
      obtain ⟨t, ts, hts⟩ := List.exists_cons_of_ne_nil (List.splitOn_ne_nil '/' cs)
      rw [htext, List.splitOn_cons_eq_if_modifyHead, hts] at hsegments
      by_cases hslash : c = '/'
      · have hroot : p.segments = opening (some .root) ++ (t :: ts).map String.ofList := by
          rw [hsegments, if_pos (by simp [hslash])]
          rfl
        rw [(IsParts.root _ _).parts_eq hroot]
        simp [isAbsolute, htext, hslash]
      · -- the first segment is not empty, and so does not stand before the root
        have hname : p.segments = String.ofList (c :: t) :: ts.map String.ofList := by
          rw [hsegments, if_neg (by simp [hslash])]
          rfl
        have hrelative : p.isAbsolute = false := by simp [isAbsolute, htext, hslash]
        rw [hrelative]
        refine iff_of_false Bool.false_ne_true ?_
        intro hlead
        rw [hlead, hname] at hspell
        have hfirst : String.ofList (c :: t) = "" := (List.cons.inj hspell).1
        simp at hfirst

/-- What comes after the beginning of a normal path: the way up, or a name that a directory can
list. -/
def Component.IsStep : Component → Prop
  | .up => True
  | .name s => IsEntryName s
  | .root | .here => False

/-- A path is its beginning and then single dots and steps. -/
theorem components_spec (p : Path) :
    ∃ steps, p.components = startOf p.isAbsolute ++ steps ∧ ∀ c ∈ steps, c = .here ∨ c.IsStep := by
  obtain ⟨hparts, hspell⟩ := p.parts_spec
  have hnames : ∀ c ∈ names p.parts.2, c = .here ∨ c.IsStep := by
    intro c hc
    obtain ⟨s, hs, rfl⟩ := List.mem_map.1 hc
    obtain ⟨hmem, hnontrivial⟩ := List.mem_filter.1 hs
    have hslash : '/' ∉ s.toList :=
      slash_notMem_of_mem_segments (p := p) (hspell ▸ List.mem_append_right _ hmem)
    unfold componentOf
    split
    case isTrue => exact .inr trivial
    case isFalse hup => exact .inr ⟨by simpa using hnontrivial, hup, hslash⟩
  have hcomponents : p.components = p.parts.1.toList ++ names p.parts.2 := rfl
  cases habsolute : p.isAbsolute with
  | true => exact ⟨_, by rw [hcomponents, isAbsolute_iff.1 habsolute]; rfl, hnames⟩
  | false =>
      have hlead : p.parts.1 ≠ some .root :=
        fun hlead => by simp [isAbsolute_iff.2 hlead] at habsolute
      refine ⟨_, hcomponents, ?_⟩
      clear hcomponents hspell
      generalize p.parts.1 = lead at hparts hlead
      generalize p.parts.2 = segs at hparts hnames
      intro c hc
      cases hparts with
      | empty | name => exact hnames c hc
      | root => exact absurd rfl hlead
      | here =>
          rcases List.mem_cons.1 hc with rfl | hc
          · exact .inl rfl
          · exact hnames c hc

/-! ### What resolution leaves -/

/-- A beginning, double dots and names after them, as they are held during resolution: last
component first. -/
def stackOf (rooted : Bool) (ups : Nat) (names : List String) : List Component :=
  names.map .name ++ List.replicate ups .up ++ startOf rooted

theorem reverse_stackOf (rooted : Bool) (ups : Nat) (names : List String) :
    (stackOf rooted ups names).reverse =
      startOf rooted ++ (List.replicate ups Component.up ++ names.reverse.map Component.name) := by
  have hstart : (startOf rooted).reverse = startOf rooted := by cases rooted <;> rfl
  simp [stackOf, hstart]

/-- What is left of a path: whether it begins at the root, how many double dots found no name to
take back, and the names that were not taken back, the last one first. -/
structure Trail where
  rooted : Bool
  climbs : Nat
  names : List String

namespace Trail

/-- The trail after one more component. -/
def step (t : Trail) : Component → Trail
  | .root | .here => t
  | .up =>
    match t.names with
    | [] => { t with climbs := t.climbs + 1 }
    | _ :: names => { t with names := names }
  | .name s => { t with names := s :: t.names }

/-- The steps that resolution keeps of a trail. -/
def steps (t : Trail) : List Component :=
  List.replicate (t.climbs % 2) .up ++ t.names.reverse.map .name

/-- The resolved path of a trail, last component first. -/
def stack (t : Trail) : List Component :=
  stackOf t.rooted (t.climbs % 2) t.names

@[simp] theorem step_rooted (t : Trail) (c : Component) : (t.step c).rooted = t.rooted := by
  unfold step
  split
  case h_3 => split <;> rfl
  all_goals rfl

/-- Resolution follows the trail. -/
theorem push_stack (t : Trail) (c : Component) (hc : c ≠ .root) :
    push t.stack c = (t.step c).stack := by
  obtain ⟨rooted, climbs, names⟩ := t
  cases c with
  | root => exact absurd rfl hc
  | here | name => rfl
  | up =>
      cases names with
      | cons => rfl
      | nil =>
          -- the first double dot without a name stays, and the second one takes it back
          rcases Nat.mod_two_eq_zero_or_one climbs with heven | hodd
          · have hnext : (climbs + 1) % 2 = 1 := by omega
            simp only [stack, step, heven, hnext]
            cases rooted <;> rfl
          · have hnext : (climbs + 1) % 2 = 0 := by omega
            simp only [stack, step, hodd, hnext]
            rfl

/-- All names of a trail are names that a directory can list. -/
def Proper (t : Trail) : Prop :=
  ∀ s ∈ t.names, IsEntryName s

theorem Proper.step {t : Trail} (h : t.Proper) {c : Component} (hc : c = .here ∨ c.IsStep) :
    (t.step c).Proper := by
  cases c with
  | root | here => exact h
  | name s =>
      have hs : IsEntryName s := hc.resolve_left nofun
      exact List.forall_mem_cons.2 ⟨hs, h⟩
  | up =>
      obtain ⟨rooted, climbs, names⟩ := t
      cases names with
      | nil => exact h
      | cons => exact (List.forall_mem_cons.1 h).2

theorem Proper.run {cs : List Component} (hcs : ∀ c ∈ cs, c = .here ∨ c.IsStep) {t : Trail}
    (h : t.Proper) :
    (cs.foldl Trail.step t).Proper := by
  induction cs generalizing t with
  | nil => exact h
  | cons c cs ih =>
      obtain ⟨hc, hcs⟩ := List.forall_mem_cons.1 hcs
      exact ih hcs (h.step hc)

theorem Proper.isStep {t : Trail} (h : t.Proper) : ∀ c ∈ t.steps, c.IsStep := by
  intro c hc
  rcases List.mem_append.1 hc with hc | hc
  · rw [List.eq_of_mem_replicate hc]
    trivial
  · obtain ⟨s, hs, rfl⟩ := List.mem_map.1 hc
    exact h s (List.mem_reverse.1 hs)

theorem rooted_foldl (cs : List Component) (t : Trail) : (cs.foldl step t).rooted = t.rooted := by
  induction cs generalizing t with
  | nil => rfl
  | cons c cs ih => rw [List.foldl_cons, ih, step_rooted]

end Trail

/-- What is left of a path. -/
def trail (p : Path) : Trail :=
  p.components.foldl Trail.step ⟨p.isAbsolute, 0, []⟩

@[simp] theorem trail_rooted (p : Path) : p.trail.rooted = p.isAbsolute :=
  Trail.rooted_foldl _ _

/-- The trail is left by the steps, from where the path begins. -/
theorem trail_eq {steps : List Component} (h : p.components = startOf p.isAbsolute ++ steps) :
    p.trail = steps.foldl Trail.step ⟨p.isAbsolute, 0, []⟩ := by
  rw [trail, h, List.foldl_append]
  cases p.isAbsolute <;> rfl

theorem trail_proper (p : Path) : p.trail.Proper := by
  obtain ⟨steps, hcomponents, hsteps⟩ := p.components_spec
  rw [trail_eq hcomponents]
  exact Trail.Proper.run hsteps nofun

/-- A way of resolution that follows the trail at the beginning and at every component leaves what
the trail says. -/
theorem foldl_components {f : List Component → Component → List Component}
    {view : Trail → List Component}
    (hstart : ∀ rooted, (startOf rooted).foldl f [] = view ⟨rooted, 0, []⟩)
    (hstep : ∀ (t : Trail) (c : Component), c ≠ .root → f (view t) c = view (t.step c)) (p : Path) :
    p.components.foldl f [] = view p.trail := by
  obtain ⟨steps, hcomponents, hsteps⟩ := p.components_spec
  have hrun : ∀ t, steps.foldl f (view t) = view (steps.foldl Trail.step t) := by
    clear hcomponents
    induction steps with
    | nil => exact fun _ => rfl
    | cons c steps ih =>
        intro t
        obtain ⟨hc, hsteps⟩ := List.forall_mem_cons.1 hsteps
        have hroot : c ≠ .root := by
          rintro rfl
          rcases hc with h | h <;> cases h
        rw [List.foldl_cons, List.foldl_cons, hstep t c hroot, ih hsteps]
  rw [trail_eq hcomponents, hcomponents, List.foldl_append, hstart, hrun]

/-- **What a path is resolved to**: its beginning, a double dot if an odd number of them found no
name, and the names that are left. -/
theorem resolved_eq (p : Path) : p.resolved = startOf p.isAbsolute ++ p.trail.steps := by
  have hstart : ∀ rooted, (startOf rooted).foldl push [] = (⟨rooted, 0, []⟩ : Trail).stack := by
    rintro (_ | _) <;> rfl
  rw [resolved, foldl_components hstart Trail.push_stack, Trail.stack, reverse_stackOf,
    trail_rooted, Trail.steps]

/-! ### The plain spelling -/

namespace Component.IsStep

variable {c : Component}

theorem componentOf_text (h : c.IsStep) : componentOf c.text = c := by
  cases c with
  | root | here => exact h.elim
  | up => rfl
  | name s => exact if_neg h.2.1

theorem isTrivial_text (h : c.IsStep) : isTrivial c.text = false := by
  cases c with
  | root | here => exact h.elim
  | up => rfl
  | name s => exact h.1

theorem slash_notMem_text (h : c.IsStep) : '/' ∉ c.text.toList := by
  cases c with
  | root | here => exact h.elim
  | up => decide
  | name s => exact h.2.2

end Component.IsStep

/-- Plainly spelled steps are read back. -/
theorem names_map_text {steps : List Component} (h : ∀ c ∈ steps, c.IsStep) :
    names (steps.map Component.text) = steps := by
  induction steps with
  | nil => rfl
  | cons c steps ih =>
      obtain ⟨hc, hsteps⟩ := List.forall_mem_cons.1 h
      have hrest : names (steps.map Component.text) = steps := ih hsteps
      unfold names at hrest ⊢
      rw [List.map_cons, List.filter_cons_of_pos (by simp [hc.isTrivial_text]), List.map_cons,
        hc.componentOf_text, hrest]

/-- The plain spelling of a beginning and steps after it is read back. -/
theorem components_ofComponents (rooted : Bool) {steps : List Component}
    (h : ∀ c ∈ steps, c.IsStep) :
    (ofComponents (startOf rooted ++ steps)).components = startOf rooted ++ steps := by
  have hslash : ∀ s ∈ steps.map Component.text, '/' ∉ s.toList := by
    intro s hs
    obtain ⟨c, hc, rfl⟩ := List.mem_map.1 hs
    exact (h c hc).slash_notMem_text
  have hnames := names_map_text h
  cases steps with
  | nil => cases rooted <;> decide
  | cons c steps =>
      have hc : c.IsStep := h c List.mem_cons_self
      cases rooted with
      | true =>
          have hparts : IsParts (some .root) ((c :: steps).map Component.text) := .root _ _
          have hspell : ofComponents (startOf true ++ c :: steps) =
              ofParts (some .root) ((c :: steps).map Component.text) :=
            rfl
          rw [hspell, components, hparts.parts_ofParts hslash]
          exact congrArg (Component.root :: ·) hnames
      | false =>
          have hparts : IsParts none ((c :: steps).map Component.text) := .name _ hc.isTrivial_text
          have hspell : ofComponents (startOf false ++ c :: steps) =
              ofParts none ((c :: steps).map Component.text) := by
            cases c with
            | root | here => exact hc.elim
            | up | name => rfl
          rw [hspell, components, hparts.parts_ofParts hslash]
          exact hnames

theorem components_normalize (p : Path) : p.normalize.components = p.resolved := by
  rw [normalize, resolved_eq, components_ofComponents _ p.trail_proper.isStep]

/-- Names are added one by one. -/
theorem foldl_push_names (ns : List String) (stack : List Component) :
    (ns.map Component.name).foldl push stack = (ns.map Component.name).reverse ++ stack := by
  induction ns generalizing stack with
  | nil => rfl
  | cons s ns ih =>
      rw [List.map_cons, List.foldl_cons, List.reverse_cons, List.append_assoc]
      exact ih (.name s :: stack)

/-- What is resolved is not changed by resolving it again. -/
theorem resolved_normalize (p : Path) : p.normalize.resolved = p.resolved := by
  -- one double dot after the beginning stays where it is
  have hopening :
      (startOf p.isAbsolute ++ List.replicate (p.trail.climbs % 2) Component.up).foldl push [] =
        (startOf p.isAbsolute ++ List.replicate (p.trail.climbs % 2) Component.up).reverse := by
    rcases Nat.mod_two_eq_zero_or_one p.trail.climbs with h | h <;> rw [h] <;>
      cases p.isAbsolute <;> rfl
  rw [resolved, components_normalize, resolved_eq, Trail.steps, ← List.append_assoc,
    List.foldl_append, hopening, foldl_push_names, ← List.reverse_append, List.reverse_reverse]

theorem normalize_normalize (p : Path) : p.normalize.normalize = p.normalize := by
  rw [normalize, resolved_normalize, normalize]

/-! ### Places -/

theorem Component.IsStep.shown {c : Component} (h : c.IsStep) : c.shown.IsStep := by
  cases c with
  | root | here => exact h.elim
  | up => trivial
  | name s => exact isEntryName_shown h

/-- A beginning, double dots and names after them are shown one by one. -/
theorem map_shown_ups_names (rooted : Bool) (k : Nat) (xs : List String) :
    (startOf rooted ++ (List.replicate k Component.up ++ xs.reverse.map Component.name)).map
      Component.shown =
    startOf rooted ++
      (List.replicate k Component.up ++ (xs.map Text.shown).reverse.map Component.name) := by
  have hstart : (startOf rooted).map Component.shown = startOf rooted := by cases rooted <;> rfl
  have hups : (List.replicate k Component.up).map Component.shown = List.replicate k .up :=
    List.map_replicate
  rw [List.map_append, List.map_append, hstart, hups, ← List.map_reverse, List.map_map,
    List.map_map]
  rfl

/-- The key of a path spells what is shown of its components, and is read back. -/
theorem components_key (p : Path) :
    (⟨p.key⟩ : Path).components = p.resolved.map Component.shown := by
  have hsteps : ∀ c ∈ p.trail.steps.map Component.shown, c.IsStep := by
    intro c hc
    obtain ⟨d, hd, rfl⟩ := List.mem_map.1 hc
    exact (p.trail_proper.isStep d hd).shown
  have hstart : (startOf p.isAbsolute).map Component.shown = startOf p.isAbsolute := by
    cases p.isAbsolute <;> rfl
  have hkey : p.key = (ofComponents (p.resolved.map Component.shown)).text := shown_ofComponents _
  rw [hkey, resolved_eq, List.map_append, hstart]
  exact components_ofComponents _ hsteps

/-- Two paths name the same place if and only if they are resolved to components that are shown
alike. -/
theorem key_eq_iff :
    p.key = q.key ↔ p.resolved.map Component.shown = q.resolved.map Component.shown := by
  constructor
  · intro h
    rw [← components_key, h, components_key]
  · intro h
    rw [key, key, normalize, normalize, shown_ofComponents, shown_ofComponents, h]

theorem normalize_eq_iff : p.normalize = q.normalize ↔ p.resolved = q.resolved := by
  constructor
  · intro h
    rw [← components_normalize, h, components_normalize]
  · intro h
    rw [normalize, normalize, h]

/-- A name that is left of a path is one of its components. -/
theorem Trail.mem_names_foldl {cs : List Component} {t : Trail} {s : String}
    (h : s ∈ (cs.foldl Trail.step t).names) : s ∈ t.names ∨ .name s ∈ cs := by
  induction cs generalizing t with
  | nil => exact .inl h
  | cons c cs ih =>
      rcases ih h with h | h
      · cases c with
        | root | here => exact .inl h
        | name n =>
            rcases List.mem_cons.1 h with rfl | h
            · exact .inr List.mem_cons_self
            · exact .inl h
        | up =>
            obtain ⟨rooted, climbs, names⟩ := t
            cases names with
            | nil => exact .inl h
            | cons => exact .inl (List.mem_cons_of_mem _ h)
      · exact .inr (List.mem_cons_of_mem _ h)

/-- The names that are left of a path that is shown as it is are shown as they are. -/
theorem IsText.map_shown_names (h : p.IsText) : p.trail.names.map Text.shown = p.trail.names := by
  have hshown : ∀ s ∈ p.trail.names, Text.shown s = id s := by
    intro s hs
    rcases Trail.mem_names_foldl hs with hs | hs
    · exact absurd hs List.not_mem_nil
    · exact Component.name.inj (h.shown_of_mem_components hs)
  rw [List.map_congr_left hshown, List.map_id]

theorem IsText.map_shown_resolved (h : p.IsText) : p.resolved.map Component.shown = p.resolved := by
  rw [resolved_eq, Trail.steps, map_shown_ups_names, h.map_shown_names]

/-- A place contains another if and only if its components open those of the other. -/
theorem within_iff : p.within q = true ↔ q.resolved <+: p.resolved := by
  rw [within, startsWith, List.isPrefixOf_iff_prefix, components_normalize, components_normalize]

/-- Of two directories with a common path below them, one lies in the other. -/
theorem within_or_within (hq : p.within q = true) (hr : p.within r = true) :
    q.within r = true ∨ r.within q = true := by
  rw [within_iff] at hq hr ⊢
  rw [within_iff]
  exact (List.prefix_or_prefix_of_prefix hq hr).symm

theorem within_trans (hpq : p.within q = true) (hqr : q.within r = true) : p.within r = true := by
  rw [within_iff] at hpq hqr ⊢
  exact hqr.trans hpq

theorem samePlace_of_within (hpq : p.within q = true) (hqp : q.within p = true) :
    p.samePlace q = true := by
  rw [within_iff] at hpq hqp
  rw [samePlace_iff, key_eq_iff, hqp.eq_of_length_le hpq.length_le]

/-- An entry is resolved to its directory and its name. -/
theorem resolved_div (p : Path) {x : String} (hx : IsEntryName x) :
    (p / x).resolved = p.resolved ++ [.name x] := by
  rw [resolved, components_div p hx, List.foldl_concat, resolved]
  exact List.reverse_cons

/-- An entry lies in its directory, and its directory does not lie in it. -/
theorem within_div (p : Path) {x : String} (hx : IsEntryName x) :
    (p / x).within p = true ∧ p.within (p / x) = false := by
  constructor
  · rw [within_iff, resolved_div p hx]
    exact List.prefix_append _ _
  · rw [← Bool.not_eq_true, within_iff, resolved_div p hx]
    intro h
    have hlength := h.length_le
    rw [List.length_append, List.length_singleton] at hlength
    omega

/-- **Containment is a tree order on places.** A normalised path is not changed again; containment
is reflexive and transitive, holds both ways only between spellings of one place, and holds one way
or the other between any two places that contain a third. An entry lies in its directory, and the
directory never in its entry. Containment does not tell spellings of one place apart if they are
shown as they are. In general it treats two paths alike if and only if they have the same normal
form, and places with stray bytes may be the same without that. -/
theorem containment_orders_places (p q r : Path) :
    p.normalize.normalize = p.normalize ∧ p.within p = true ∧
      (p.within q = true → q.within r = true → p.within r = true) ∧
      (∀ p' q' : Path, p.IsText → p'.IsText → q.IsText → q'.IsText →
        p.samePlace p' = true → q.samePlace q' = true → p.within q = p'.within q') ∧
      (∀ p' : Path, (∀ o : Path, p.within o = p'.within o ∧ o.within p = o.within p') ↔
        p.normalize = p'.normalize) ∧
      (p.within q = true → q.within p = true → p.samePlace q = true) ∧
      (p.within q = true → p.within r = true → q.within r = true ∨ r.within q = true) ∧
      ∀ x, IsEntryName x → (p / x).within p = true ∧ p.within (p / x) = false := by
  have hself : ∀ o : Path, o.within o = true := fun o => within_iff.2 (List.prefix_refl _)
  refine ⟨p.normalize_normalize, hself p, within_trans, ?_, fun p' => ⟨?_, ?_⟩,
    samePlace_of_within, within_or_within, fun x => p.within_div⟩
  · intro p' q' hp hp' hq hq' hplace hplace'
    rw [samePlace_iff, key_eq_iff, hp.map_shown_resolved, hp'.map_shown_resolved] at hplace
    rw [samePlace_iff, key_eq_iff, hq.map_shown_resolved, hq'.map_shown_resolved] at hplace'
    rw [Bool.eq_iff_iff, within_iff, within_iff, hplace, hplace']
  · -- each of the two lies in the other, since each lies in itself
    intro halike
    have hinto : p.within p' = true := (halike p').1.trans (hself p')
    have honto : p'.within p = true := (halike p).1.symm.trans (hself p)
    rw [within_iff] at hinto honto
    exact normalize_eq_iff.2 (honto.eq_of_length_le hinto.length_le)
  · intro hnormal o
    rw [within, within, within, within, hnormal]
    exact ⟨rfl, rfl⟩

/-- A path with detours, the folder it lies in and the folder around that, each in a spelling of its
own. -/
theorem containment_orders_places_respelled :
    let p : Path := ⟨"/ws/./a/../b//src"⟩
    let q : Path := ⟨"/ws/c/../b/"⟩
    let r : Path := ⟨"//ws/."⟩
    p.normalize = ⟨"/ws/b/src"⟩ ∧ p.within q = true ∧ q.within r = true ∧ p.within r = true ∧
      p.IsText ∧ q.IsText ∧ (⟨"/ws/b"⟩ : Path).IsText ∧
      q.samePlace ⟨"/ws/b"⟩ = true ∧ p.within ⟨"/ws/b"⟩ = true ∧
        (q.within r = true ∨ r.within q = true) := by
  intro p q r
  have hnormal : p.normalize = ⟨"/ws/b/src"⟩ := by decide +kernel
  have hpq : p.within q = true := by decide +kernel
  have hqr : q.within r = true := by decide +kernel
  have hspelling : q.samePlace ⟨"/ws/b"⟩ = true := by decide +kernel
  have hsame : p.samePlace p = true := samePlace_iff.2 rfl
  have hp : p.IsText := by decide +kernel
  have hq : q.IsText := by decide +kernel
  have hq' : (⟨"/ws/b"⟩ : Path).IsText := by decide +kernel
  obtain ⟨-, -, htrans, hcongr, -, -, hchain, -⟩ := containment_orders_places p q r
  have hpr : p.within r = true := htrans hpq hqr
  have hwithin : p.within q = p.within ⟨"/ws/b"⟩ := hcongr p _ hp hp hq hq' hsame hspelling
  exact ⟨hnormal, hpq, hqr, hpr, hp, hq, hq', hspelling, hwithin ▸ hpq, hchain hpq hpr⟩

/-- Two names of one stray byte are taken for the same place, and neither lies in the other. -/
theorem stray_bytes_hide_containment :
    let p : Path := ⟨Text.ofBytes [0x2F, 0xFF]⟩
    let q : Path := ⟨Text.ofBytes [0x2F, 0xFE]⟩
    p.samePlace q = true ∧ p.within p = true ∧ q.within q = true ∧ p.within q = false ∧
      q.within p = false := by
  decide +kernel

end EnvDiscovery.Path
