import EnvDiscovery.Environment.Merge
import Mathlib.Data.List.Perm.Basic
import Mathlib.Order.MinMax

/-!
**Laws of merging.**

Merging keeps the kind and the executable of one of the two reports, and never loses a source. What
a chain of merges says about its sources and about the specificity of its kind therefore does not
depend on the order of the reports, although the chain itself does.

Main definitions:
* `EnvRecord.mergeAll` — the reports of one environment merged from the left;
* `EnvRecord.Covers` — a record that says at least as much about sources and kind as another.

Main results:
* `EnvRecord.merge_origin` — kind and executable of a merged record come from one report;
* `EnvRecord.mergeAll_induction` — what every report has and merging keeps, the merged record has;
* `EnvRecord.mergeAll_sources_of_perm`, `EnvRecord.mergeAll_specificity_of_perm` — **order does not
  matter** for the sources and for the specificity.
-/

namespace EnvDiscovery

/-! ### Sets of sources -/

theorem EnvSource.mem_all (x : EnvSource) : x ∈ EnvSource.all := by
  cases x <;> decide

namespace SourceSet

@[simp] theorem contains_ofPred (p : EnvSource → Bool) (x : EnvSource) :
    (ofPred p).contains x = p x := by
  rw [Bool.eq_iff_iff]
  simp [contains, ofPred, EnvSource.mem_all]

@[simp] theorem contains_union (s t : SourceSet) (x : EnvSource) :
    (s.union t).contains x = (s.contains x || t.contains x) := by
  simp [union]

/-- Sets with the same members are equal, since their members are listed in a fixed order. -/
theorem eq_of_contains {s t : SourceSet} (h : ∀ x, s.contains x = t.contains x) : s = t := by
  have hlist : s.toList = t.toList := by
    rw [← s.ordered, ← t.ordered]
    exact List.filter_congr fun x _ => h x
  cases s
  cases t
  simpa using hlist

end SourceSet

namespace EnvRecord

/-! ### Two reports -/

@[simp] theorem fill_kind (winner other : EnvRecord) : (fill winner other).kind = winner.kind := rfl

@[simp] theorem fill_path (winner other : EnvRecord) : (fill winner other).path = winner.path := rfl

@[simp] theorem fill_sources (winner other : EnvRecord) :
    (fill winner other).sources = winner.sources.union other.sources := rfl

@[simp] theorem fill_searchLocation (winner other : EnvRecord) :
    (fill winner other).searchLocation = (winner.searchLocation <|> other.searchLocation) := rfl

/-- Either the later report is the more specific one and is completed from the earlier, or the
earlier one is completed from the later. -/
theorem merge_cases (a b : EnvRecord) :
    (a.kind.specificity < b.kind.specificity ∧ a.merge b = fill b a) ∨
      (b.kind.specificity ≤ a.kind.specificity ∧ a.merge b = fill a b) := by
  unfold merge
  split
  · exact Or.inl ⟨‹_›, rfl⟩
  · exact Or.inr ⟨by omega, rfl⟩

/-- Kind and executable of a merged record come together from one of the two reports. -/
theorem merge_origin (a b : EnvRecord) :
    ((a.merge b).kind = a.kind ∧ (a.merge b).path = a.path) ∨
      ((a.merge b).kind = b.kind ∧ (a.merge b).path = b.path) := by
  rcases merge_cases a b with ⟨-, h⟩ | ⟨-, h⟩ <;> simp [h]

theorem merge_specificity (a b : EnvRecord) :
    (a.merge b).kind.specificity = max a.kind.specificity b.kind.specificity := by
  rcases merge_cases a b with ⟨hlt, h⟩ | ⟨hle, h⟩
  · rw [h, fill_kind, max_eq_right hlt.le]
  · rw [h, fill_kind, max_eq_left hle]

@[simp] theorem merge_sources_contains (a b : EnvRecord) (x : EnvSource) :
    (a.merge b).sources.contains x = (a.sources.contains x || b.sources.contains x) := by
  rcases merge_cases a b with ⟨-, h⟩ | ⟨-, h⟩
  · rw [h, fill_sources, SourceSet.contains_union, Bool.or_comm]
  · rw [h, fill_sources, SourceSet.contains_union]

/-- The place of a merged record is that of one of the reports. -/
theorem merge_searchLocation (a b : EnvRecord) :
    (a.merge b).searchLocation = a.searchLocation ∨
    (a.merge b).searchLocation = b.searchLocation := by
  rcases merge_cases a b with ⟨-, h⟩ | ⟨-, h⟩ <;> rw [h, fill_searchLocation]
  · cases b.searchLocation <;> simp
  · cases a.searchLocation <;> simp

/-- `r` names every source of `e`, and its kind is at least as specific. -/
def Covers (r e : EnvRecord) : Prop :=
  (∀ x, e.sources.contains x = true → r.sources.contains x = true) ∧
    e.kind.specificity ≤ r.kind.specificity

theorem Covers.refl (e : EnvRecord) : e.Covers e := ⟨fun _ h => h, le_rfl⟩

theorem Covers.merge_left {r e : EnvRecord} (h : r.Covers e) (b : EnvRecord) :
    (r.merge b).Covers e := by
  refine ⟨fun x hx => ?_, ?_⟩
  · rw [merge_sources_contains, h.1 x hx, Bool.true_or]
  · rw [merge_specificity]
    exact h.2.trans (le_max_left _ _)

theorem covers_merge_right (r e : EnvRecord) : (r.merge e).Covers e := by
  refine ⟨fun x hx => ?_, ?_⟩
  · rw [merge_sources_contains, hx, Bool.or_true]
  · rw [merge_specificity]
    exact le_max_right _ _

/-! ### Many reports -/

/-- The reports of one environment, merged from the left. -/
def mergeAll : List EnvRecord → Option EnvRecord
  | [] => none
  | e :: rest => some (rest.foldl merge e)

@[simp] theorem mergeAll_singleton (e : EnvRecord) : mergeAll [e] = some e := rfl

theorem mergeAll_concat {es : List EnvRecord} {r : EnvRecord} (h : mergeAll es = some r)
    (e : EnvRecord) :
    mergeAll (es ++ [e]) = some (r.merge e) := by
  cases es with
  | nil => simp [mergeAll] at h
  | cons d rest =>
      obtain rfl : rest.foldl merge d = r := by simpa [mergeAll] using h
      simp [mergeAll]

theorem mergeAll_isSome {es : List EnvRecord} (h : es ≠ []) : ∃ r, mergeAll es = some r := by
  cases es with
  | nil => exact absurd rfl h
  | cons e rest => exact ⟨_, rfl⟩

/-- What every report has and merging keeps, the merged record has. -/
theorem mergeAll_induction {P : EnvRecord → Prop} (hmerge : ∀ a b, P a → P b → P (a.merge b))
    {es : List EnvRecord} {r : EnvRecord} (hall : ∀ e ∈ es, P e) (h : mergeAll es = some r) :
    P r := by
  cases es with
  | nil => simp [mergeAll] at h
  | cons d rest =>
      obtain rfl : rest.foldl merge d = r := by simpa [mergeAll] using h
      rw [List.forall_mem_cons] at hall
      obtain ⟨hd, hrest⟩ := hall
      clear h
      induction rest generalizing d with
      | nil => exact hd
      | cons e rest ih =>
          rw [List.forall_mem_cons] at hrest
          exact ih _ (hmerge d e hd hrest.1) hrest.2

theorem foldl_merge_sources_contains (d : EnvRecord) (rest : List EnvRecord) (x : EnvSource) :
    (rest.foldl merge d).sources.contains x = (d :: rest).any (·.sources.contains x) := by
  induction rest generalizing d with
  | nil => simp
  | cons e rest ih => simp [ih, Bool.or_assoc]

theorem foldl_merge_specificity (d : EnvRecord) (rest : List EnvRecord) :
    (rest.foldl merge d).kind.specificity = (rest.map (·.kind.specificity)).foldl max
      d.kind.specificity := by
  induction rest generalizing d with
  | nil => rfl
  | cons e rest ih => rw [List.foldl_cons, ih, merge_specificity, List.map_cons, List.foldl_cons]

/-- The merged record names the sources of all reports. -/
theorem mergeAll_sources_contains {es : List EnvRecord} {r : EnvRecord} (h : mergeAll es = some r)
    (x : EnvSource) : r.sources.contains x = es.any (·.sources.contains x) := by
  cases es with
  | nil => simp [mergeAll] at h
  | cons d rest =>
      obtain rfl : rest.foldl merge d = r := by simpa [mergeAll] using h
      exact foldl_merge_sources_contains d rest x

/-- The kind of the merged record has the greatest specificity of all reports. -/
theorem mergeAll_specificity {es : List EnvRecord} {r : EnvRecord} (h : mergeAll es = some r) :
    r.kind.specificity = (es.map (·.kind.specificity)).foldl max 0 := by
  cases es with
  | nil => simp [mergeAll] at h
  | cons d rest =>
      obtain rfl : rest.foldl merge d = r := by simpa [mergeAll] using h
      rw [foldl_merge_specificity, List.map_cons, List.foldl_cons, Nat.zero_max]

/-- The sources of the merged record do not depend on the order of the reports. -/
theorem mergeAll_sources_of_perm {es es' : List EnvRecord} {r r' : EnvRecord} (hp : es'.Perm es)
    (h : mergeAll es = some r) (h' : mergeAll es' = some r') : r'.sources = r.sources := by
  refine SourceSet.eq_of_contains fun x => ?_
  rw [mergeAll_sources_contains h, mergeAll_sources_contains h', Bool.eq_iff_iff]
  simp only [List.any_eq_true, hp.mem_iff]

/-- The specificity of the merged record does not depend on the order of the reports. -/
theorem mergeAll_specificity_of_perm {es es' : List EnvRecord} {r r' : EnvRecord} (hp : es'.Perm es)
    (h : mergeAll es = some r) (h' : mergeAll es' = some r') :
    r'.kind.specificity = r.kind.specificity := by
  rw [mergeAll_specificity h, mergeAll_specificity h']
  exact (hp.map _).foldl_eq 0

end EnvRecord

end EnvDiscovery
