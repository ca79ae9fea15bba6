import EnvDiscovery.Proofs.NormalPaths
import EnvDiscovery.Proofs.WorkspaceRuns

/-!
**The innermost root of a path.**

Of the roots that contain a path the workspace takes the one that is spelled with the most
components. Roots that contain one path lie in each other like shells, so the one that is resolved
to the most components is the innermost. The two are the same as long as no root is made longer by a
detour, components that resolution drops again: a root with a longer detour than another can be
taken although the other lies inside it.

Main definitions:
* `Path.detour` — how many components of a path resolution drops;
* `Path.longer`, `Path.longest?` — the last of the longest spellings.

Main results:
* `Path.longest?_spec` — what is taken of a list of paths;
* `Path.within_of_length_le` — of two directories around a path, the one with more components lies
  in the other;
* `Workspace.innermost_root_up_to_detours` — **the root that is taken is the innermost one up to
  detours**.
-/

namespace EnvDiscovery

namespace Path

variable {p q r : Path}

/-! ### Detours -/

theorem length_push_le (stack : List Component) (c : Component) :
    (push stack c).length ≤ stack.length + 1 := by
  unfold push
  split
  case h_1 => omega
  case h_2 =>
    split
    case h_1 => exact Nat.le_refl _
    case h_2 => exact Nat.le_refl _
    case h_3 c below => rw [List.length_cons]; omega
  case h_3 => simp

theorem length_foldl_push_le (cs stack : List Component) :
    (cs.foldl push stack).length ≤ stack.length + cs.length := by
  induction cs generalizing stack with
  | nil => exact Nat.le_refl _
  | cons c cs ih =>
      have hstep := length_push_le stack c
      have hrun := ih (push stack c)
      rw [List.foldl_cons, List.length_cons]
      omega

/-- A path is not resolved to more components than it is spelled with. -/
theorem length_resolved_le (p : Path) : p.resolved.length ≤ p.components.length := by
  have h := length_foldl_push_le p.components []
  rw [resolved, List.length_reverse]
  simpa using h

/-- How many components of a path resolution drops. -/
def detour (p : Path) : Nat :=
  p.components.length - p.resolved.length

/-- Of two directories around a path, one that is resolved to as many components as the other lies
in it. -/
theorem within_of_length_le (hr : p.within r = true) (hq : p.within q = true)
    (h : q.resolved.length ≤ r.resolved.length) : r.within q = true := by
  rw [within_iff] at hr hq ⊢
  exact List.prefix_of_prefix_length_le hq hr h

/-! ### The longest spelling -/

/-- The path that is spelled with more components, the later one if there is no difference. -/
def longer (best : Option Path) (p : Path) : Option Path :=
  best.elim (some p) fun b => if b.components.length ≤ p.components.length then some p else some b

/-- The last of the longest spellings. -/
def longest? (paths : List Path) : Option Path :=
  paths.foldl longer none

/-- `r` is spelled with at least as many components as the paths before it, and with more than those
after it. -/
def IsLongest (paths : List Path) (r : Path) : Prop :=
  ∃ before after, paths = before ++ r :: after ∧
    (∀ o ∈ before, o.components.length ≤ r.components.length) ∧
    ∀ o ∈ after, o.components.length < r.components.length

namespace IsLongest

variable {paths : List Path}

theorem mem (h : IsLongest paths r) : r ∈ paths := by
  obtain ⟨before, after, rfl, -, -⟩ := h
  simp

theorem length_le (h : IsLongest paths r) :
    ∀ o ∈ paths, o.components.length ≤ r.components.length := by
  obtain ⟨before, after, rfl, hbefore, hafter⟩ := h
  intro o ho
  rcases List.mem_append.1 ho with ho | ho
  · exact hbefore o ho
  · rcases List.mem_cons.1 ho with rfl | ho
    · exact Nat.le_refl _
    · exact Nat.le_of_lt (hafter o ho)

/-- One more path is the longest if no path before it is longer. -/
theorem concat_self (h : ∀ o ∈ paths, o.components.length ≤ p.components.length) :
    IsLongest (paths ++ [p]) p :=
  ⟨paths, [], rfl, h, nofun⟩

/-- A path stays the longest if a shorter one comes. -/
theorem concat_of_lt (h : IsLongest paths r) (hlt : p.components.length < r.components.length) :
    IsLongest (paths ++ [p]) r := by
  obtain ⟨before, after, rfl, hbefore, hafter⟩ := h
  refine ⟨before, after ++ [p], by simp, hbefore, ?_⟩
  intro o ho
  rcases List.mem_append.1 ho with ho | ho
  · exact hafter o ho
  · obtain rfl : o = p := by simpa using ho
    exact hlt

end IsLongest

/-- Of no paths none is taken, and of any others the last of the longest spellings. -/
theorem longest?_spec (paths : List Path) :
    (paths = [] ∧ longest? paths = none) ∨ ∃ r, longest? paths = some r ∧ IsLongest paths r := by
  induction paths using List.reverseRecOn with
  | nil => exact .inl ⟨rfl, rfl⟩
  | append_singleton paths p ih =>
      have hstep : longest? (paths ++ [p]) = longer (longest? paths) p := by simp [longest?]
      rw [hstep]
      right
      rcases ih with ⟨rfl, hnone⟩ | ⟨b, hb, hlongest⟩
      · exact ⟨p, by rw [hnone]; rfl, .concat_self nofun⟩
      · rw [hb, longer, Option.elim_some]
        split
        case isTrue hle =>
          exact ⟨p, rfl, .concat_self fun o ho => Nat.le_trans (hlongest.length_le o ho) hle⟩
        case isFalse hgt => exact ⟨b, rfl, hlongest.concat_of_lt (Nat.lt_of_not_le hgt)⟩

end Path

namespace Workspace

variable {ws : Workspace} {path r : Path}

theorem rootContaining_eq (ws : Workspace) (path : Path) :
    ws.rootContaining path = Path.longest? (ws.paths.filter (path.within ·)) := by
  refine congrArg (List.foldl · none (ws.paths.filter (path.within ·))) ?_
  funext best root
  cases best <;> rfl

theorem rootContaining_eq_none_iff :
    ws.rootContaining path = none ↔ ∀ o ∈ ws.paths, path.within o = false := by
  have hempty : ws.paths.filter (path.within ·) = [] ↔ ∀ o ∈ ws.paths, path.within o = false := by
    simp [List.filter_eq_nil_iff]
  rw [rootContaining_eq, ← hempty]
  rcases Path.longest?_spec (ws.paths.filter (path.within ·)) with ⟨hnil, hnone⟩ | ⟨r, hr, hlongest⟩
  · exact iff_of_true hnone hnil
  · refine iff_of_false (by simp [hr]) ?_
    exact List.ne_nil_of_mem hlongest.mem

theorem isLongest_of_rootContaining (h : ws.rootContaining path = some r) :
    Path.IsLongest (ws.paths.filter (path.within ·)) r := by
  rw [rootContaining_eq] at h
  rcases Path.longest?_spec (ws.paths.filter (path.within ·)) with ⟨-, hnone⟩ | ⟨b, hb, hlongest⟩
  · simp [hnone] at h
  · obtain rfl : b = r := Option.some.inj (hb.symm.trans h)
    exact hlongest

/-- **The root that is taken is the innermost one up to detours.** Whatever the roots and their
spellings: there is none exactly if no root contains the path. Otherwise it is a root that contains
the path, the last of those that are spelled with the most components; it lies in every other root
around the path whose detour is not shorter than its own; and it lies in all of them exactly if none
is resolved to more components. -/
theorem innermost_root_up_to_detours (ws : Workspace) (path : Path) :
    (ws.rootContaining path = none ↔ ∀ o ∈ ws.paths, path.within o = false) ∧
      ∀ r, ws.rootContaining path = some r →
        (r ∈ ws.paths ∧ path.within r = true) ∧
        Path.IsLongest (ws.paths.filter (path.within ·)) r ∧
        (∀ o ∈ ws.paths, path.within o = true → r.detour ≤ o.detour → r.within o = true) ∧
        ((∀ o ∈ ws.paths, path.within o = true → r.within o = true) ↔
          ∀ o ∈ ws.paths, path.within o = true → o.resolved.length ≤ r.resolved.length) := by
  refine ⟨rootContaining_eq_none_iff, ?_⟩
  intro r hr
  have hlongest := isLongest_of_rootContaining hr
  obtain ⟨hmem, hwithin⟩ := List.mem_filter.1 hlongest.mem
  refine ⟨⟨hmem, hwithin⟩, hlongest, ?_, ?_⟩
  · intro o ho hpath hdetour
    have hlength := hlongest.length_le o (List.mem_filter.2 ⟨ho, hpath⟩)
    have ho' := o.length_resolved_le
    have hr' := r.length_resolved_le
    refine Path.within_of_length_le hwithin hpath ?_
    unfold Path.detour at hdetour
    omega
  · constructor
    · intro h o ho hpath
      exact (Path.within_iff.1 (h o ho hpath)).length_le
    · intro h o ho hpath
      exact Path.within_of_length_le hwithin hpath (h o ho hpath)

/-- Both roots around the path are spelled with a detour of the same length. -/
theorem innermost_root_up_to_detours_equal :
    let outer : Path := ⟨"/ws/y/.."⟩
    let inner : Path := ⟨"/ws/x/../nested"⟩
    let path : Path := ⟨"/ws/nested//main.py"⟩
    let ws := (Session.overFolders [outer, inner, ⟨"/elsewhere"⟩]).workspace
    ws.rootContaining path = some inner ∧ outer ∈ ws.paths ∧ path.within outer = true ∧
      inner.detour ≤ outer.detour ∧
      inner.within outer = true := by
  intro outer inner path ws
  have hinner : ws.rootContaining path = some inner := by decide +kernel
  have hmem : outer ∈ ws.paths := by decide +kernel
  have hpath : path.within outer = true := by decide +kernel
  have hdetour : inner.detour ≤ outer.detour := by decide +kernel
  obtain ⟨-, htaken⟩ := innermost_root_up_to_detours ws path
  obtain ⟨-, -, hwithin, -⟩ := htaken inner hinner
  exact ⟨hinner, hmem, hpath, hdetour, hwithin outer hmem hpath hdetour⟩

/-- The outer of two roots is taken for the innermost, since it is spelled with a detour. -/
theorem detour_hides_innermost_root :
    let outer : Path := ⟨"/ws/a/b/../.."⟩
    let inner : Path := ⟨"/ws/nested"⟩
    let path : Path := ⟨"/ws/nested/main.py"⟩
    let ws := (Session.overFolders [outer, inner]).workspace
    ws.paths = [outer, inner] ∧ path.within outer = true ∧ path.within inner = true ∧
      ws.rootContaining path = some outer ∧ outer.within inner = false ∧
        inner.within outer = true := by
  decide +kernel

end Workspace

end EnvDiscovery
