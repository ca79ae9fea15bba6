import EnvDiscovery.Host
import Mathlib.Data.List.Induction
import Mathlib.Data.List.Nodup

/-!
**Lists of places.**

Two paths name the same place if their keys agree, however they are spelled. A list of paths is made
distinct by keeping the first spelling of each place.

Main results:
* `Path.any_samePlace` — whether a place is in a list is a question about keys;
* `Path.distinct_concat` — one more path is kept if its place is new;
* `Path.key_mem_distinct`, `Path.nodup_keys_distinct` — every place stays, and none stays twice;
* `Path.distinct_filter` — making a list distinct and taking places out of it commute.
-/

namespace EnvDiscovery.Path

variable {p q : Path} {paths : List Path}

theorem samePlace_iff : p.samePlace q = true ↔ p.key = q.key := by
  simp [samePlace]

theorem samePlace_eq_false_iff : p.samePlace q = false ↔ p.key ≠ q.key := by
  simp [samePlace]

theorem samePlace_congr (h : p.key = q.key) (r : Path) : p.samePlace r = q.samePlace r := by
  rw [samePlace, samePlace, h]

theorem samePlace_right (h : p.key = q.key) (r : Path) : r.samePlace p = r.samePlace q := by
  rw [samePlace, samePlace, h]

theorem any_samePlace : paths.any (·.samePlace p) = true ↔ p.key ∈ paths.map key := by
  simp only [List.any_eq_true, List.mem_map, samePlace_iff]

theorem any_samePlace_eq_false : paths.any (·.samePlace p) = false ↔ p.key ∉ paths.map key := by
  rw [← any_samePlace, Bool.not_eq_true]

/-- Taking a place out leaves the other places. -/
theorem filter_samePlace_of_notMem (h : p.key ∉ paths.map key) :
    paths.filter (!·.samePlace p) = paths := by
  rw [List.filter_eq_self]
  intro q hq
  have hne : q.key ≠ p.key := fun heq => h (heq ▸ List.mem_map_of_mem hq)
  rw [samePlace_eq_false_iff.2 hne]
  rfl

/-! ### The first spelling of each place -/

/-- The paths after some others are added to what is kept of those. -/
theorem distinct_append (paths later : List Path) :
    distinct (paths ++ later) = addNew (distinct paths) later :=
  List.foldl_append

theorem distinct_concat (paths : List Path) (p : Path) :
    distinct (paths ++ [p]) =
      if (distinct paths).any (·.samePlace p) then distinct paths else distinct paths ++ [p] := by
  simp [distinct, addNew]

/-- No place is lost, and none comes in. -/
theorem key_mem_distinct {k : String} : k ∈ (distinct paths).map key ↔ k ∈ paths.map key := by
  induction paths using List.reverseRecOn with
  | nil => rfl
  | append_singleton paths p ih =>
      rw [distinct_concat, List.map_append, List.mem_append, ← ih]
      split
      case isTrue h =>
        rw [any_samePlace] at h
        constructor
        · exact Or.inl
        · rintro (hk | hk)
          · exact hk
          · obtain rfl : k = p.key := by simpa using hk
            exact h
      case isFalse h => rw [List.map_append, List.mem_append]

theorem distinct_concat_of_mem (h : p.key ∈ paths.map key) :
    distinct (paths ++ [p]) = distinct paths := by
  rw [distinct_concat, if_pos (any_samePlace.2 (key_mem_distinct.2 h))]

theorem distinct_concat_of_notMem (h : p.key ∉ paths.map key) :
    distinct (paths ++ [p]) = distinct paths ++ [p] := by
  rw [distinct_concat, if_neg]
  rwa [any_samePlace, key_mem_distinct]

/-- No place is named twice. -/
theorem nodup_keys_distinct (paths : List Path) : ((distinct paths).map key).Nodup := by
  induction paths using List.reverseRecOn with
  | nil => exact List.nodup_nil
  | append_singleton paths p ih =>
      by_cases h : p.key ∈ paths.map key
      · rwa [distinct_concat_of_mem h]
      · rw [distinct_concat_of_notMem h, List.map_append]
        refine ih.append (List.nodup_singleton _) ?_
        intro k hk hp
        obtain rfl : k = p.key := by simpa using hp
        exact h (key_mem_distinct.1 hk)

/-- Making a list distinct and taking a place out of it commute. -/
theorem distinct_filter (paths : List Path) (root : Path) :
    distinct (paths.filter (!·.samePlace root)) = (distinct paths).filter (!·.samePlace root) := by
  induction paths using List.reverseRecOn with
  | nil => rfl
  | append_singleton paths p ih =>
      rw [List.filter_append]
      cases hroot : p.samePlace root with
      | true =>
          -- the last path is taken out on both sides
          have hlast : [p].filter (!·.samePlace root) = [] := by simp [hroot]
          rw [hlast, List.append_nil, ih]
          by_cases h : p.key ∈ paths.map key
          · rw [distinct_concat_of_mem h]
          · rw [distinct_concat_of_notMem h, List.filter_append, hlast, List.append_nil]
      | false =>
          have hlast : [p].filter (!·.samePlace root) = [p] := by simp [hroot]
          rw [hlast]
          by_cases h : p.key ∈ paths.map key
          · have hkept : p.key ∈ (paths.filter (!·.samePlace root)).map key := by
              obtain ⟨q, hq, hkey⟩ := List.mem_map.1 h
              refine List.mem_map.2 ⟨q, List.mem_filter.2 ⟨hq, ?_⟩, hkey⟩
              rw [samePlace_congr hkey, hroot]
              rfl
            rw [distinct_concat_of_mem h, distinct_concat_of_mem hkept, ih]
          · have hnew : p.key ∉ (paths.filter (!·.samePlace root)).map key := by
              intro hmem
              obtain ⟨q, hq, hkey⟩ := List.mem_map.1 hmem
              exact h (List.mem_map.2 ⟨q, (List.mem_filter.1 hq).1, hkey⟩)
            rw [distinct_concat_of_notMem h, distinct_concat_of_notMem hnew, ih,
              List.filter_append, hlast]

end EnvDiscovery.Path
