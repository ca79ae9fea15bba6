import EnvDiscovery.Proofs.NormalPaths

/-!
**Places and lexical resolution.**

Lexical resolution lets a double dot take back the name before it, and nothing else: at the root it
changes nothing, and at the beginning of a relative path it stays, as often as it stands there.
Places are told apart by less. Where no name is left a double dot stays, also at the root, and the
next one takes it back. So paths are compared by what is shown of the names that are left, and by
whether the number of double dots without a name is odd. This is lexical resolution, as it is shown,
as long as no double dot of an absolute path, and at most one of a relative path, is without a name;
and of paths without stray bytes all is shown as it is.

Main definitions:
* `Path.settle`, `Path.lexical` — lexical resolution, one component at a time;
* `Path.Grounded` — paths in which the double dots find their names.

Main results:
* `Path.lexical_eq` — what lexical resolution leaves of a path;
* `Path.samePlace_iff_trail`, `Path.lexical_eq_iff` — when two paths are resolved alike;
* `Path.places_are_lexical_when_grounded` — **places are told apart by lexical resolution up to
  double dots that find no name**.
-/

namespace EnvDiscovery.Path

variable {p q : Path}

/-! ### Lexical resolution -/

/-- Adds one component to a lexically resolved path, which is held last component first: a double
dot takes back a name, changes nothing at the root, and stays where there is neither. -/
def settle (stack : List Component) : Component → List Component
  | .here => stack
  | .up =>
    match stack with
    | .name _ :: below => below
    | [.root] => [.root]
    | _ => .up :: stack
  | c => c :: stack

/-- The components of a path after lexical resolution. -/
def lexical (p : Path) : List Component :=
  (p.components.foldl settle []).reverse

namespace Trail

/-- The double dots that lexical resolution keeps of a trail. -/
def kept (t : Trail) : Nat :=
  if t.rooted then 0 else t.climbs

/-- The lexically resolved path of a trail, last component first. -/
def lexicalStack (t : Trail) : List Component :=
  stackOf t.rooted t.kept t.names

/-- Lexical resolution follows the trail. -/
theorem settle_lexicalStack (t : Trail) (c : Component) (hc : c ≠ .root) :
    settle t.lexicalStack c = (t.step c).lexicalStack := by
  obtain ⟨rooted, climbs, names⟩ := t
  cases c with
  | root => exact absurd rfl hc
  | here | name => rfl
  | up =>
      cases names with
      | cons => rfl
      | nil =>
          cases rooted with
          | true => rfl
          | false =>
              -- the first one is kept, and so is every other
              cases climbs with
              | zero => rfl
              | succ n => rfl

end Trail

/-- What lexical resolution leaves of a path: its beginning, the double dots of a relative path that
found no name, and the names that are left. -/
theorem lexical_eq (p : Path) :
    p.lexical = startOf p.isAbsolute ++ (List.replicate p.trail.kept .up ++
      p.trail.names.reverse.map .name) := by
  have hstart : ∀ rooted, (startOf rooted).foldl settle [] =
      (⟨rooted, 0, []⟩ : Trail).lexicalStack := by
    rintro (_ | _) <;> rfl
  rw [lexical, foldl_components hstart Trail.settle_lexicalStack, Trail.lexicalStack,
    reverse_stackOf, trail_rooted]

/-! ### Paths that are resolved alike -/

theorem count_up_ups_names (k : Nat) (xs : List String) :
    (List.replicate k Component.up ++ xs.map Component.name).count Component.up = k := by
  have hnames : (xs.map Component.name).count Component.up = 0 := by
    rw [List.count_eq_zero]
    intro hmem
    obtain ⟨s, -, hs⟩ := List.mem_map.1 hmem
    cases hs
  rw [List.count_append, List.count_replicate_self, hnames, Nat.add_zero]

/-- Double dots and names after them are told apart by their number and by the names. -/
theorem ups_names_inj {m n : Nat} {xs ys : List String} :
    List.replicate m Component.up ++ xs.reverse.map .name = List.replicate n .up ++
      ys.reverse.map .name ↔
      xs = ys ∧ m = n := by
  constructor
  · intro h
    obtain rfl : m = n := by rw [← count_up_ups_names m xs.reverse, h, count_up_ups_names]
    have hnames : xs.reverse.map Component.name = ys.reverse.map .name := List.append_cancel_left h
    have hinj : Function.Injective Component.name := fun s t hst => Component.name.inj hst
    exact ⟨List.reverse_inj.1 (List.map_injective_iff.2 hinj hnames), rfl⟩
  · rintro ⟨rfl, rfl⟩
    rfl

/-- Paths with the same beginning are the same place if the same names are shown and the parity of
double dots that found none is the same. -/
theorem samePlace_iff_trail (h : p.isAbsolute = q.isAbsolute) :
    p.samePlace q = true ↔ p.trail.names.map Text.shown = q.trail.names.map Text.shown ∧
      p.trail.climbs % 2 = q.trail.climbs % 2 := by
  rw [samePlace_iff, key_eq_iff, resolved_eq, resolved_eq, Trail.steps, Trail.steps,
    map_shown_ups_names, map_shown_ups_names, h, List.append_cancel_left_eq, ups_names_inj]

theorem kept_eq_iff (h : p.isAbsolute = q.isAbsolute) :
    p.trail.kept = q.trail.kept ↔ p.isAbsolute = true ∨ p.trail.climbs = q.trail.climbs := by
  rw [Trail.kept, Trail.kept, trail_rooted, trail_rooted, ← h]
  cases p.isAbsolute <;> simp

/-- Paths with the same beginning have the same lexical resolution if they have the same names left
and, unless they are absolute, the same number of double dots that found none. -/
theorem lexical_eq_iff (h : p.isAbsolute = q.isAbsolute) :
    p.lexical = q.lexical ↔
      p.trail.names = q.trail.names ∧ (p.isAbsolute = true ∨ p.trail.climbs = q.trail.climbs) := by
  rw [lexical_eq, lexical_eq, ← h, List.append_cancel_left_eq, ups_names_inj, kept_eq_iff h]

/-- The same of what is shown of them. -/
theorem map_shown_lexical_eq_iff (h : p.isAbsolute = q.isAbsolute) :
    p.lexical.map Component.shown = q.lexical.map Component.shown ↔
      p.trail.names.map Text.shown = q.trail.names.map Text.shown ∧
        (p.isAbsolute = true ∨ p.trail.climbs = q.trail.climbs) := by
  rw [lexical_eq, lexical_eq, map_shown_ups_names, map_shown_ups_names, ← h,
    List.append_cancel_left_eq, ups_names_inj, kept_eq_iff h]

theorem IsText.map_shown_lexical (h : p.IsText) : p.lexical.map Component.shown = p.lexical := by
  rw [lexical_eq, map_shown_ups_names, h.map_shown_names]

/-- The double dots find their names: all of them in an absolute path, and all but at most one in a
relative path. -/
def Grounded (p : Path) : Prop :=
  p.trail.climbs ≤ if p.isAbsolute then 0 else 1

instance : DecidablePred Grounded := fun p => inferInstanceAs (Decidable (p.trail.climbs ≤ _))

/-- **Places are told apart by lexical resolution up to double dots that find no name.** Of any two
paths that are both absolute or both relative: they are the same place exactly if the same names are
shown of what is left and the parity of double dots that found none is the same; their lexical
resolutions are the same exactly if they have the same names left and, if they are relative, the
same number of such double dots; and if both paths are grounded, they are the same place exactly if
the same is shown of their lexical resolutions. Of a path without stray bytes all is shown as it
is. -/
theorem places_are_lexical_when_grounded (p q : Path) (h : p.isAbsolute = q.isAbsolute) :
    (p.samePlace q = true ↔ p.trail.names.map Text.shown = q.trail.names.map Text.shown ∧
      p.trail.climbs % 2 = q.trail.climbs % 2) ∧
      (p.lexical = q.lexical ↔
        p.trail.names = q.trail.names ∧ (p.isAbsolute = true ∨ p.trail.climbs = q.trail.climbs)) ∧
      (p.Grounded → q.Grounded →
        (p.samePlace q = true ↔
          p.lexical.map Component.shown = q.lexical.map Component.shown)) ∧
      (p.IsText → q.IsText →
        (p.samePlace q = true ↔ p.trail.names = q.trail.names ∧
          p.trail.climbs % 2 = q.trail.climbs % 2) ∧
        (p.Grounded → q.Grounded → (p.samePlace q = true ↔ p.lexical = q.lexical))) := by
  have hplace := samePlace_iff_trail h
  have hagree : p.Grounded → q.Grounded →
      (p.samePlace q = true ↔ p.lexical.map Component.shown = q.lexical.map Component.shown) := by
    intro hp hq
    rw [hplace, map_shown_lexical_eq_iff h]
    refine and_congr_right fun _ => ?_
    rw [Grounded] at hp hq
    rw [← h] at hq
    cases habsolute : p.isAbsolute with
    | true =>
        rw [habsolute, if_pos rfl] at hp hq
        have hsame : p.trail.climbs = q.trail.climbs := by omega
        simp [hsame]
    | false =>
        rw [habsolute, if_neg Bool.false_ne_true] at hp hq
        have hparity : p.trail.climbs % 2 = q.trail.climbs % 2 ↔
            p.trail.climbs = q.trail.climbs := by
          omega
        simp [hparity]
  refine ⟨hplace, lexical_eq_iff h, hagree, fun hp hq => ⟨?_, fun hp' hq' => ?_⟩⟩
  · rw [hplace, hp.map_shown_names, hq.map_shown_names]
  · rw [hagree hp' hq', hp.map_shown_lexical, hq.map_shown_lexical]

/-- Two spellings of a path that begins with a double dot. -/
theorem places_are_lexical_when_grounded_above :
    let p : Path := ⟨"../a/../b"⟩
    let q : Path := ⟨"./..//b/."⟩
    p.isAbsolute = q.isAbsolute ∧ p.Grounded ∧ q.Grounded ∧ p.IsText ∧ q.IsText ∧
      p.lexical = [.up, .name "b"] ∧ p.lexical = q.lexical ∧ p.samePlace q = true := by
  intro p q
  have hrelative : p.isAbsolute = q.isAbsolute := by decide +kernel
  have hp : p.Grounded := by decide +kernel
  have hq : q.Grounded := by decide +kernel
  have hptext : p.IsText := by decide +kernel
  have hqtext : q.IsText := by decide +kernel
  have hlexical : p.lexical = q.lexical := by decide +kernel
  obtain ⟨-, -, -, htext⟩ := places_are_lexical_when_grounded p q hrelative
  exact ⟨hrelative, hp, hq, hptext, hqtext, by decide +kernel, hlexical,
    ((htext hptext hqtext).2 hp hq).2 hlexical⟩

/-- Two double dots at the beginning of a relative path take back each other, and one at the root is
taken for a place of its own. -/
theorem leading_double_dots_are_miscounted :
    let above : Path := ⟨"../../x"⟩
    let here : Path := ⟨"x"⟩
    let aboveRoot : Path := ⟨"/.."⟩
    let root : Path := ⟨"/"⟩
    above.isAbsolute = here.isAbsolute ∧ above.lexical = [.up, .up, .name "x"] ∧
      here.lexical = [.name "x"] ∧
      above.samePlace here = true ∧ aboveRoot.isAbsolute = root.isAbsolute ∧
        aboveRoot.lexical = [.root] ∧
      root.lexical = [.root] ∧ aboveRoot.samePlace root = false := by
  decide +kernel

end EnvDiscovery.Path
