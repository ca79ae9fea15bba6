import EnvDiscovery.Proofs.EnvSet
import Mathlib.Logic.Relation

/-!
**Which reports of a set come together.**

Nothing is assumed here about the file system: a report is a record with any real path. A report
that shares a key with an earlier one joins such a one. But it has two keys, and they may stand at
two places: then it joins one of them and leaves the other where it is. Such a report is a bridge
between environments that stay apart.

Main definitions:
* `EnvSet.Report`, `EnvSet.Report.Shares` — a record with a real path, and reports with a common
  key;
* `EnvSet.place`, `EnvSet.placed` — the place where a report comes, told by the reports before it;
* `EnvSet.Linked` — a chain of shared keys;
* `EnvSet.NoBridges` — a report shares keys only with reports that are linked before it.

Main results:
* `EnvSet.tracks_ofReports` — the invariant of adding: what the records and the index say about the
  places so far;
* `EnvSet.linked_of_same_place` — reports of one place are linked;
* `EnvSet.merged_unless_bridged` — **reports that share a key come together if and only if there are
  no bridges**;
* `EnvSet.noBridges_of_coherent` — a coherent file system has no bridges.
-/

namespace EnvDiscovery

namespace EnvSet

/-- A record that is added, and the path behind the links of its executable. -/
structure Report where
  record : EnvRecord
  realPath : Option Path
deriving DecidableEq

namespace Report

/-- The keys of a report. -/
def keys (r : Report) : List String := keysOf r.record r.realPath

/-- Two reports are about the same environment: they have a key in common. -/
def Shares (a b : Report) : Prop := ∃ k ∈ a.keys, k ∈ b.keys

instance (a b : Report) : Decidable (a.Shares b) :=
  inferInstanceAs (Decidable (∃ k ∈ a.keys, k ∈ b.keys))

theorem Shares.refl (a : Report) : a.Shares a :=
  ⟨a.record.path.key, by simp [keys, keysOf], by simp [keys, keysOf]⟩

theorem Shares.symm {a b : Report} (h : a.Shares b) : b.Shares a := by
  obtain ⟨k, ha, hb⟩ := h
  exact ⟨k, hb, ha⟩

end Report

/-- The set of some reports, added in order. -/
def ofReports (reports : List Report) : EnvSet :=
  reports.foldl (fun s r => s.add r.record r.realPath) empty

theorem ofReports_concat (reports : List Report) (r : Report) :
    ofReports (reports ++ [r]) = (ofReports reports).add r.record r.realPath := by
  simp [ofReports]

/-- What a file system says about the executables of some records makes them reports. -/
theorem ofList_eq_ofReports (realPath : Path → Option Path) (es : List EnvRecord) :
    ofList realPath es = ofReports (es.map fun e => ⟨e, realPath e.path⟩) := by
  rw [ofList, ofReports, List.foldl_map]

/-! ### Places -/

/-- The place of the last report with a key. -/
def lastPlace? (older : List (Report × Nat)) (k : String) : Option Nat :=
  (older.reverse.find? (k ∈ ·.1.keys)).map (·.2)

/-- The first place after all that are taken. -/
def nextPlace (older : List (Report × Nat)) : Nat :=
  (older.map (·.2 + 1)).foldr max 0

/-- The place of a report: where the first of its keys that an earlier report has was last seen, or
a new place. -/
def place (older : List (Report × Nat)) (r : Report) : Nat :=
  (r.keys.findSome? (lastPlace? older)).getD (nextPlace older)

/-- Some reports, each with its place. -/
def placed (reports : List Report) : List (Report × Nat) :=
  reports.foldl (fun older r => older ++ [(r, place older r)]) []

/-- The records at a place, in order. -/
def recordsAt (reports : List (Report × Nat)) (p : Nat) : List EnvRecord :=
  (reports.filter (·.2 = p)).map (·.1.record)

section Places

variable {older : List (Report × Nat)} {reports : List Report} {r : Report} {d e : Report × Nat}

theorem placed_concat (reports : List Report) (r : Report) :
    placed (reports ++ [r]) = placed reports ++ [(r, place (placed reports) r)] := by
  simp [placed]

theorem map_fst_placed (reports : List Report) : (placed reports).map (·.1) = reports := by
  induction reports using List.reverseRecOn with
  | nil => rfl
  | append_singleton reports r ih => rw [placed_concat, List.map_append, ih]; rfl

theorem exists_place (h : r ∈ reports) : ∃ p, (r, p) ∈ placed reports := by
  rw [← map_fst_placed reports] at h
  obtain ⟨d, hd, rfl⟩ := List.mem_map.1 h
  exact ⟨d.2, hd⟩

theorem fst_mem_of_mem_placed (h : d ∈ placed reports) : d.1 ∈ reports := by
  rw [← map_fst_placed reports]
  exact List.mem_map_of_mem h

/-- Later reports do not move earlier ones. -/
theorem placed_prefix_append (older newer : List Report) :
    placed older <+: placed (older ++ newer) := by
  induction newer using List.reverseRecOn with
  | nil => simp
  | append_singleton newer r ih =>
      rw [← List.append_assoc, placed_concat]
      exact ih.trans (List.prefix_append _ _)

/-- The place of a report is told by the reports before it. -/
theorem mem_placed_append (older : List Report) (r : Report) (newer : List Report) :
    (r, place (placed older) r) ∈ placed (older ++ r :: newer) := by
  have hkept : placed (older ++ [r]) <+: placed (older ++ [r] ++ newer) := placed_prefix_append _ _
  rw [List.append_assoc, List.singleton_append, placed_concat] at hkept
  exact hkept.subset (by simp)

theorem nextPlace_concat (older : List (Report × Nat)) (d : Report × Nat) :
    nextPlace (older ++ [d]) = max (nextPlace older) (d.2 + 1) := by
  induction older with
  | nil => simp [nextPlace]
  | cons c older ih =>
      simp only [nextPlace, List.cons_append, List.map_cons, List.foldr_cons] at ih ⊢
      rw [ih, max_assoc]

theorem lt_nextPlace (h : d ∈ older) : d.2 < nextPlace older := by
  induction older using List.reverseRecOn with
  | nil => cases h
  | append_singleton older c ih =>
      rw [nextPlace_concat]
      rcases List.mem_append.1 h with h | h
      · exact lt_max_of_lt_left (ih h)
      · obtain rfl : d = c := by simpa using h
        exact lt_max_of_lt_right (Nat.lt_succ_self _)

theorem lastPlace?_concat (older : List (Report × Nat)) (d : Report × Nat) (k : String) :
    lastPlace? (older ++ [d]) k = if k ∈ d.1.keys then some d.2 else lastPlace? older k := by
  rw [lastPlace?, List.reverse_append, List.reverse_singleton, List.singleton_append,
    List.find?_cons]
  split <;> simp_all [lastPlace?]

theorem exists_of_lastPlace? {k : String} {p : Nat} (h : lastPlace? older k = some p) :
    ∃ d ∈ older, k ∈ d.1.keys ∧ d.2 = p := by
  obtain ⟨d, hd, rfl⟩ := Option.map_eq_some_iff.1 h
  exact ⟨d, List.mem_reverse.1 (List.mem_of_find?_eq_some hd), by simpa using List.find?_some hd,
    rfl⟩

theorem notMem_of_lastPlace?_none {k : String} (h : lastPlace? older k = none) :
    ∀ d ∈ older, k ∉ d.1.keys := by
  intro d hd
  rw [lastPlace?, Option.map_eq_none_iff, List.find?_eq_none] at h
  simpa using h d (List.mem_reverse.2 hd)

/-- A report comes to an earlier one that it shares a key with; if there is none, it comes to a new
place. -/
theorem place_cases (older : List (Report × Nat)) (r : Report) :
    (∃ d ∈ older, d.1.Shares r ∧ d.2 = place older r) ∨
      ((∀ d ∈ older, ¬d.1.Shares r) ∧ place older r = nextPlace older) := by
  cases h : r.keys.findSome? (lastPlace? older) with
  | some p =>
      left
      obtain ⟨k, hk, hlast⟩ := List.exists_of_findSome?_eq_some h
      obtain ⟨d, hd, hkd, rfl⟩ := exists_of_lastPlace? hlast
      exact ⟨d, hd, ⟨k, hkd, hk⟩, by rw [place, h]; rfl⟩
  | none =>
      right
      refine ⟨fun d hd hshares => ?_, by rw [place, h]; rfl⟩
      obtain ⟨k, hkd, hk⟩ := hshares
      exact notMem_of_lastPlace?_none (List.findSome?_eq_none_iff.1 h k hk) d hd hkd

/-- A report that shares a key with an earlier one comes to the place of such a one. -/
theorem exists_mem_place (hd : d ∈ older) (hshares : d.1.Shares r) :
    ∃ c ∈ older, c.1.Shares r ∧ c.2 = place older r := by
  rcases place_cases older r with h | ⟨hnone, -⟩
  · exact h
  · exact absurd hshares (hnone d hd)

/-- The place of a report is new only if it shares no key with an earlier one. -/
theorem exists_mem_of_place_lt (h : place older r < nextPlace older) :
    ∃ c ∈ older, c.1.Shares r ∧ c.2 = place older r := by
  rcases place_cases older r with h' | ⟨-, hnew⟩
  · exact h'
  · exact absurd hnew h.ne

/-! ### The invariant of adding -/

theorem recordsAt_concat_self (older : List (Report × Nat)) (r : Report) (p : Nat) :
    recordsAt (older ++ [(r, p)]) p = recordsAt older p ++ [r.record] := by
  simp [recordsAt]

theorem recordsAt_concat_of_ne (older : List (Report × Nat)) (r : Report) {p q : Nat} (h : p ≠ q) :
    recordsAt (older ++ [(r, p)]) q = recordsAt older q := by
  simp [recordsAt, h]

theorem recordsAt_eq_nil {p : Nat} (h : nextPlace older ≤ p) : recordsAt older p = [] := by
  rw [recordsAt, List.map_eq_nil_iff, List.filter_eq_nil_iff]
  intro d hd
  have hlt : d.2 < nextPlace older := lt_nextPlace hd
  simpa using (hlt.trans_le h).ne

/-- The set `s` holds the reports `older` at their places: a key stands for the place of its last
report, and the record at a place is merged from the reports there. -/
structure Tracks (older : List (Report × Nat)) (s : EnvSet) : Prop where
  index : ∀ k, s.index.lookup k = lastPlace? older k
  length : s.records.length = nextPlace older
  records : ∀ p, s.records[p]? = EnvRecord.mergeAll (recordsAt older p)

namespace Tracks

variable {s : EnvSet}

theorem position? (h : Tracks older s) (r : Report) :
    s.position? r.keys = r.keys.findSome? (lastPlace? older) :=
  congrArg (r.keys.findSome? ·) (funext h.index)

theorem index_step (h : Tracks older s) (r : Report) (p : Nat) (k : String) :
    (r.keys.map (·, p) ++ s.index).lookup k = lastPlace? (older ++ [(r, p)]) k := by
  rw [lookup_keys_append, lastPlace?_concat, h.index]

/-- **The step**: a report is added at its place. -/
theorem add (h : Tracks older s) (r : Report) :
    Tracks (older ++ [(r, place older r)]) (s.add r.record r.realPath) := by
  cases hpos : s.position? r.keys with
  | some i =>
      -- the report is merged into the record at its place, and no other place changes
      have hplace : place older r = i := by rw [place, ← h.position?, hpos]; rfl
      have hlt : i < s.records.length := by
        rw [h.position?] at hpos
        obtain ⟨k, -, hk⟩ := List.exists_of_findSome?_eq_some hpos
        obtain ⟨d, hd, -, rfl⟩ := exists_of_lastPlace? hk
        exact h.length ▸ lt_nextPlace hd
      rw [add_of_position?_some hpos, hplace]
      refine ⟨h.index_step r i, ?_, fun p => ?_⟩
      · rw [List.length_modify, nextPlace_concat, ← h.length, max_eq_left hlt]
      · have hold := h.records p
        rw [List.getElem?_modify]
        by_cases hp : i = p
        · subst hp
          have hget : s.records[i]? = some s.records[i] := List.getElem?_eq_getElem hlt
          rw [recordsAt_concat_self, EnvRecord.mergeAll_concat (hold.symm.trans hget), hget]
          simp
        · rw [recordsAt_concat_of_ne _ _ hp, ← hold]
          simp [hp]
  | none =>
      have hplace : place older r = s.records.length := by
        rw [place, ← h.position?, hpos, h.length]; rfl
      rw [add_of_position?_none hpos, hplace]
      refine ⟨h.index_step r _, ?_, fun p => ?_⟩
      · rw [List.length_append, List.length_singleton, nextPlace_concat, ← h.length]
        exact (max_eq_right (Nat.le_succ _)).symm
      · by_cases hp : s.records.length = p
        · subst hp
          rw [recordsAt_concat_self, recordsAt_eq_nil h.length.ge, List.getElem?_concat_length]
          rfl
        · rw [recordsAt_concat_of_ne _ _ hp, ← h.records p, List.getElem?_append]
          split
          · rfl
          · rw [List.getElem?_eq_none (by simp; omega), List.getElem?_eq_none (by omega)]

end Tracks

/-- **The run**: after any reports the set holds them at their places. -/
theorem tracks_ofReports (reports : List Report) : Tracks (placed reports) (ofReports reports) := by
  induction reports using List.reverseRecOn with
  | nil => exact ⟨fun _ => rfl, rfl, fun _ => rfl⟩
  | append_singleton reports r ih =>
      rw [placed_concat, ofReports_concat]
      exact ih.add r

end Places

/-! ### Chains of shared keys -/

/-- Two reports are linked by a chain of reports, each of which shares a key with the next. -/
def Linked (reports : List Report) : Report → Report → Prop :=
  Relation.ReflTransGen fun a b => a ∈ reports ∧ b ∈ reports ∧ a.Shares b

/-- The earlier reports that a report shares a key with are linked before it. -/
def NoBridges (reports : List Report) : Prop :=
  ∀ older r newer, reports = older ++ r :: newer →
    ∀ a ∈ older, ∀ b ∈ older, a.Shares r → b.Shares r → Linked older a b

/-- Reports that share a key are at one place. -/
def SharedTogether (placed : List (Report × Nat)) : Prop :=
  ∀ d ∈ placed, ∀ e ∈ placed, d.1.Shares e.1 → d.2 = e.2

section Chains

variable {reports older newer : List Report} {a b r : Report} {d e : Report × Nat}

theorem Linked.symm (h : Linked reports a b) : Linked reports b a := by
  induction h with
  | refl => exact .refl
  | tail _ hbc ih =>
      obtain ⟨hb, hc, hshares⟩ := hbc
      exact .head ⟨hc, hb, hshares.symm⟩ ih

theorem Linked.mono (h : Linked older a b) (hsub : older ⊆ reports) : Linked reports a b :=
  h.lift id fun _ _ ⟨ha, hb, hshares⟩ => ⟨hsub ha, hsub hb, hshares⟩

theorem linked_of_shares (ha : a ∈ reports) (hb : b ∈ reports) (h : a.Shares b) :
    Linked reports a b :=
  Relation.ReflTransGen.single ⟨ha, hb, h⟩

/-- **Reports of one place are linked**: nothing is merged that no chain of keys joins. -/
theorem linked_of_same_place (reports : List Report) :
    ∀ d ∈ placed reports, ∀ e ∈ placed reports, d.2 = e.2 → Linked reports d.1 e.1 := by
  induction reports using List.reverseRecOn with
  | nil => intro d hd; cases hd
  | append_singleton reports r ih =>
      have hsub : reports ⊆ reports ++ [r] := List.subset_append_left _ _
      -- an earlier report at the place of `r` is linked to one that shares a key with `r`
      have hnew : ∀ d ∈ placed reports, d.2 = place (placed reports) r →
          Linked (reports ++ [r]) d.1 r := by
        intro d hd hplace
        obtain ⟨c, hc, hshares, hcplace⟩ := exists_mem_of_place_lt (hplace ▸ lt_nextPlace hd)
        refine ((ih d hd c hc (hplace.trans hcplace.symm)).mono hsub).trans
          (linked_of_shares ?_ ?_ hshares)
        · exact hsub (fst_mem_of_mem_placed hc)
        · simp
      intro d hd e he hplace
      rw [placed_concat, List.mem_append, List.mem_singleton] at hd he
      rcases hd with hd | rfl <;> rcases he with he | rfl
      · exact (ih d hd e he hplace).mono hsub
      · exact hnew d hd hplace
      · exact (hnew e he hplace.symm).symm
      · exact Relation.ReflTransGen.refl

/-- Where reports that share a key are at one place, so are linked ones. -/
theorem SharedTogether.of_linked (h : SharedTogether (placed reports))
    (hlinked : Linked reports a b) {p q : Nat} (hp : (a, p) ∈ placed reports)
    (hq : (b, q) ∈ placed reports) : p = q := by
  induction hlinked generalizing q with
  | refl => exact h _ hp _ hq (Report.Shares.refl a)
  | tail hab hbc ih =>
      obtain ⟨hb, -, hshares⟩ := hbc
      obtain ⟨o, ho⟩ := exists_place hb
      exact (ih ho).trans (h _ ho _ hq hshares)

theorem NoBridges.of_append (h : NoBridges (older ++ newer)) : NoBridges older := by
  intro first r rest hsplit
  exact h first r (rest ++ newer) (by rw [hsplit]; simp)

/-- Without bridges, reports that share a key are at one place. -/
theorem sharedTogether_of_noBridges (h : NoBridges reports) : SharedTogether (placed reports) := by
  induction reports using List.reverseRecOn with
  | nil => intro d hd; cases hd
  | append_singleton reports r ih =>
      have hold : SharedTogether (placed reports) := ih h.of_append
      -- `r` joins one of the earlier reports it shares a key with, and all of them are linked to
      -- that one
      have hnew : ∀ d ∈ placed reports, d.1.Shares r → d.2 = place (placed reports) r := by
        intro d hd hshares
        obtain ⟨c, hc, hcshares, hcplace⟩ := exists_mem_place hd hshares
        have hlinked : Linked reports d.1 c.1 :=
          h reports r [] rfl d.1 (fst_mem_of_mem_placed hd) c.1 (fst_mem_of_mem_placed hc) hshares
            hcshares
        exact (hold.of_linked hlinked hd hc).trans hcplace
      intro d hd e he hshares
      rw [placed_concat, List.mem_append, List.mem_singleton] at hd he
      rcases hd with hd | rfl <;> rcases he with he | rfl
      · exact hold d hd e he hshares
      · exact hnew d hd hshares
      · exact (hnew e he hshares.symm).symm
      · rfl

/-- Where reports that share a key are at one place, there are no bridges. -/
theorem noBridges_of_sharedTogether (h : SharedTogether (placed reports)) : NoBridges reports := by
  rintro older r newer rfl a ha b hb har hbr
  -- both reports are at the place of `r`, so they were at one place before it came
  have hsub : placed older ⊆ placed (older ++ r :: newer) := (placed_prefix_append older _).subset
  have hr : (r, place (placed older) r) ∈ placed (older ++ r :: newer) :=
    mem_placed_append older r newer
  obtain ⟨p, hp⟩ := exists_place ha
  obtain ⟨q, hq⟩ := exists_place hb
  have hpr : p = place (placed older) r := h _ (hsub hp) _ hr har
  have hqr : q = place (placed older) r := h _ (hsub hq) _ hr hbr
  exact linked_of_same_place older _ hp _ hq (hpr.trans hqr.symm)

/-- A coherent file system has no bridges: reports that share a key with a third one share a key. -/
theorem noBridges_of_coherent {realPath : Path → Option Path} (hc : Coherent realPath)
    (es : List EnvRecord) :
    NoBridges (es.map fun e => ⟨e, realPath e.path⟩) := by
  intro older r newer hsplit a ha b hb har hbr
  have hreport : ∀ c ∈ older ++ r :: newer, c.realPath = realPath c.record.path := by
    intro c hmem
    rw [← hsplit] at hmem
    obtain ⟨e, -, rfl⟩ := List.mem_map.1 hmem
    rfl
  have hidentity : ∀ c ∈ older, c.Shares r → identity realPath c.record =
      identity realPath r.record := by
    rintro c hmem ⟨k, hkc, hkr⟩
    rw [Report.keys, hreport c (by simp [hmem])] at hkc
    rw [Report.keys, hreport r (by simp)] at hkr
    exact identity_eq_of_common_key hc hkc hkr
  obtain ⟨k, hka, hkb⟩ :=
    common_key_of_identity_eq ((hidentity a ha har).trans (hidentity b hb hbr).symm)
  rw [← hreport a (by simp [ha])] at hka
  rw [← hreport b (by simp [hb])] at hkb
  exact linked_of_shares ha hb ⟨k, hka, hkb⟩

end Chains

/-- **Reports that share a key come together if and only if there are no bridges.** Whatever is
added, with whatever real paths: each record of the set is merged from the reports at its place, in
order. A report that shares a key with an earlier one joins such a one, and reports at one place are
linked by a chain of shared keys. All reports that share a key are at one place if and only if no
report shares keys with two earlier ones that were not linked. -/
theorem merged_unless_bridged (reports : List Report) :
    ((placed reports).map (·.1) = reports ∧
        ∀ p, (ofReports reports).records[p]? = EnvRecord.mergeAll (recordsAt (placed reports) p)) ∧
      (∀ older r newer, reports = older ++ r :: newer → (∃ a ∈ older, a.Shares r) →
        ∃ d ∈ placed older, d.1.Shares r ∧ (r, d.2) ∈ placed reports) ∧
      (∀ d ∈ placed reports, ∀ e ∈ placed reports, d.2 = e.2 → Linked reports d.1 e.1) ∧
      (SharedTogether (placed reports) ↔ NoBridges reports) := by
  refine ⟨⟨map_fst_placed reports, (tracks_ofReports reports).records⟩, ?_,
    linked_of_same_place reports, noBridges_of_sharedTogether, sharedTogether_of_noBridges⟩
  rintro older r newer rfl ⟨a, ha, hshares⟩
  obtain ⟨p, hp⟩ := exists_place ha
  obtain ⟨d, hd, hdr, hplace⟩ := exists_mem_place hp hshares
  exact ⟨d, hd, hdr, hplace ▸ mem_placed_append older r newer⟩

/-- A chain of two links: the first and the last report share no key, and all three make one
record. -/
theorem merged_unless_bridged_chain :
    let first : Report := ⟨EnvRecord.new ⟨"/a/python"⟩ .system, some ⟨"/a/python"⟩⟩
    let second : Report := ⟨EnvRecord.new ⟨"/b/python"⟩ .system, some ⟨"/a/python"⟩⟩
    let third : Report := ⟨EnvRecord.new ⟨"/b/./python"⟩ .venv, none⟩
    let reports := [first, second, third]
    (second.Shares third ∧ ¬first.Shares third) ∧
      (ofReports reports).records[0]? =
        some ((first.record.merge second.record).merge third.record) ∧
      (∃ d ∈ placed [first, second], d.1.Shares third ∧ (third, d.2) ∈ placed reports) ∧
      Linked reports first third ∧ NoBridges reports := by
  intro first second third reports
  have hshares : second.Shares third := by decide +kernel
  have hplaced : placed reports = [(first, 0), (second, 0), (third, 0)] := by decide +kernel
  obtain ⟨⟨-, hrecords⟩, hjoins, hlinked, htogether⟩ := merged_unless_bridged reports
  refine ⟨⟨hshares, by decide +kernel⟩, ?_,
    hjoins [first, second] third [] rfl ⟨second, by simp, hshares⟩,
    hlinked (first, 0) (by simp [hplaced]) (third, 0) (by simp [hplaced]) rfl, htogether.1 ?_⟩
  · rw [hrecords 0, hplaced]
    rfl
  · intro d hd e he _
    simp only [hplaced, List.mem_cons, List.not_mem_nil, or_false] at hd he
    rcases hd with rfl | rfl | rfl <;> rcases he with rfl | rfl | rfl <;> rfl

/-- A bridge: the path of the third report is that of the first, and its real path is that of the
second, for example because it goes back from a link to a directory. The second and the third share
a key, but are not merged. -/
theorem bridge_leaves_environments_apart :
    let first : Report := ⟨EnvRecord.new ⟨"/a/python"⟩ .system, some ⟨"/a/python"⟩⟩
    let second : Report := ⟨EnvRecord.new ⟨"/real/python"⟩ .system, some ⟨"/real/python"⟩⟩
    let third : Report := ⟨EnvRecord.new ⟨"/a/link/../python"⟩ .system, some ⟨"/real/python"⟩⟩
    (second.Shares third ∧ first.Shares third) ∧
      (ofReports [first, second, third]).records = [first.record.merge third.record,
        second.record] := by
  decide +kernel

end EnvSet

end EnvDiscovery
