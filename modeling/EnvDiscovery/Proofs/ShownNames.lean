import EnvDiscovery.Proofs.Spellings
import EnvDiscovery.Proofs.StrayBytes

/-!
**What is shown of names.**

A stray byte is never shown as a slash or a dot, and it does not vanish: it becomes a replacement
character, or a part of one, or a part of a character that is none of the first 128. So a name that
a directory can list is shown as such a name, and a path is shown name by name.

Main definitions:
* `Text.Utf8.Pending.Wide` — a character under way that is none of the first 128;
* `Path.Component.shown` — a component as it is shown;
* `Path.IsText` — paths that are shown as they are.

Main results:
* `Text.Utf8.step_stray` — what a stray byte does;
* `Text.Utf8.reveal_append_slash`, `Text.Utf8.slash_mem_of_mem_reveal` — slashes stay as they are;
* `Path.isEntryName_shown` — names are shown as names;
* `Path.shown_ofComponents` — **a path is shown name by name**;
* `Path.IsText.shown_of_mem_components` — so are the components of a path that is shown as it is.
-/

namespace EnvDiscovery

namespace Text

namespace Utf8

variable {pending : Option Pending}

/-! ### What a stray byte does -/

/-- The least number that a character under way can have. -/
def Pending.least (p : Pending) : Nat :=
  p.due.foldl (fun bits range => bits * 64 + (range.1 - 0x80)) p.bits

/-- A character under way that waits for a byte, and that is none of the first 128. -/
structure Pending.Wide (p : Pending) : Prop where
  due : p.due ≠ []
  least : 128 ≤ p.least

theorem wide_none : ∀ p ∈ (none : Option Pending), p.Wide :=
  fun _ h => absurd h (Option.not_mem_none _)

/-- Characters among which there is neither a slash nor a dot. -/
def Unmarked (cs : List Char) : Prop :=
  ∀ c ∈ cs, c ≠ '/' ∧ c ≠ '.'

theorem unmarked_replacement : Unmarked [replacement] := by
  simp only [Unmarked, List.mem_singleton, forall_eq]
  decide

/-- The number of a character from 128 on is that of neither, and what is the number of no character
stands for the first character. -/
theorem unmarked_ofNat {n : Nat} (h : 128 ≤ n) : Unmarked [Char.ofNat n] := by
  simp only [Unmarked, List.mem_singleton, forall_eq]
  by_cases hvalid : n.isValidChar
  · have hnat : (Char.ofNat n).toNat = n := toNat_ofNat hvalid
    have hne : ∀ c : Char, c.toNat < 128 → Char.ofNat n ≠ c := by
      rintro c hc rfl
      omega
    exact ⟨hne '/' (by decide), hne '.' (by decide)⟩
  · have hzero : Char.ofNat n = Char.ofNat 0 := by
      rw [Char.ofNat, dif_neg hvalid]
      rfl
    rw [hzero]
    decide

theorem Leads.wide {b : Nat} {p : Pending} (h : Leads b p) : p.Wide := by
  refine ⟨h.due_ge.1, ?_⟩
  cases h <;> simp only [Pending.least, tail, List.foldl_cons, List.foldl_nil] <;> omega

theorem Pending.least_cons (bits : Nat) (range : Nat × Nat) (due : List (Nat × Nat)) :
    least ⟨bits, range :: due⟩ = least ⟨bits * 64 + (range.1 - 0x80), due⟩ := by
  rw [least, List.foldl_cons, least]

theorem Pending.least_mono {m n : Nat} (h : m ≤ n) (due : List (Nat × Nat)) :
    least ⟨m, due⟩ ≤ least ⟨n, due⟩ := by
  induction due generalizing m n with
  | nil => exact h
  | cons range due ih =>
      rw [least_cons, least_cons]
      exact ih (Nat.add_le_add_right (Nat.mul_le_mul_right 64 h) _)

/-- What a stray byte leaves: it shows no slash and no dot, and it shows something unless a
character is under way after it. -/
structure Leaves (out : List Char × Option Pending) : Prop where
  unmarked : Unmarked out.1
  wide : ∀ p ∈ out.2, p.Wide
  shows : out.1 = [] → out.2.isSome = true

theorem leaves_start {b : Nat} (h : 128 ≤ b) : Leaves (start b) := by
  rcases start_cases b with ⟨hlow, -⟩ | ⟨-, heq⟩ | ⟨p, hp, heq⟩
  · omega
  · rw [heq]
    exact ⟨unmarked_replacement, wide_none, fun h => absurd h (List.cons_ne_nil _ _)⟩
  · rw [heq]
    refine ⟨fun _ hc => absurd hc List.not_mem_nil, fun p' hp' => ?_, fun _ => rfl⟩
    obtain rfl : p = p' := Option.some.inj hp'
    exact hp.wide

/-- **What a stray byte does**, whatever is under way. -/
theorem step_stray {b : Nat} (h : 128 ≤ b) (hp : ∀ p ∈ pending, p.Wide) :
    Leaves (step pending b) := by
  cases pending with
  | none => exact leaves_start h
  | some p =>
      obtain ⟨bits, due⟩ := p
      cases due with
      | nil => exact absurd rfl (hp _ rfl).due
      | cons range due =>
          have hleast := (hp _ rfl).least
          rw [Pending.least_cons] at hleast
          simp only [step]
          split
          case isTrue hrange =>
            -- the byte is at least the lowest that may come next
            have hmore : 128 ≤ Pending.least ⟨bits * 64 + (b - 0x80), due⟩ :=
              Nat.le_trans hleast (Pending.least_mono (by omega) due)
            cases due with
            | nil =>
                exact ⟨unmarked_ofNat hmore, wide_none, fun h => absurd h (List.cons_ne_nil _ _)⟩
            | cons range' due =>
                refine ⟨fun _ hc => absurd hc List.not_mem_nil, fun p hp => ?_, fun _ => rfl⟩
                obtain rfl := Option.some.inj hp
                exact ⟨List.cons_ne_nil _ _, hmore⟩
          case isFalse =>
            obtain ⟨hunmarked, hwide, -⟩ := leaves_start h
            refine ⟨fun c hc => ?_, hwide, fun h => absurd h (List.cons_ne_nil _ _)⟩
            rcases List.mem_cons.1 hc with rfl | hc
            · exact unmarked_replacement _ List.mem_cons_self
            · exact hunmarked c hc

/-! ### Texts with stray bytes -/

/-- A slash ends what is under way. -/
theorem reveal_append_slash (pending : Option Pending) (cs ds : List Char) :
    reveal pending (cs ++ '/' :: ds) = reveal pending cs ++ '/' :: reveal none ds := by
  induction cs generalizing pending with
  | nil => exact reveal_plain (by decide) pending ds
  | cons c cs ih =>
      cases hc : isStray c with
      | true => rw [List.cons_append, reveal_stray hc, ih, reveal_stray hc, List.append_assoc]
      | false =>
          rw [List.cons_append, reveal_plain hc, ih, reveal_plain hc, List.append_assoc,
            List.cons_append]

/-- A slash that is shown is one. -/
theorem slash_mem_of_mem_reveal (hp : ∀ p ∈ pending, p.Wide) {cs : List Char}
    (h : '/' ∈ reveal pending cs) : '/' ∈ cs := by
  induction cs generalizing pending with
  | nil =>
      rw [reveal] at h
      split at h
      · exact absurd h (by decide)
      · exact absurd h List.not_mem_nil
  | cons c cs ih =>
      cases hc : isStray c with
      | true =>
          have hstep := step_stray (strayByte_ge hc) hp
          rw [reveal_stray hc] at h
          rcases List.mem_append.1 h with h | h
          · exact absurd rfl (hstep.unmarked _ h).1
          · exact List.mem_cons_of_mem _ (ih hstep.wide h)
      | false =>
          rw [reveal_plain hc] at h
          rcases List.mem_append.1 h with h | h
          · rw [reveal] at h
            split at h
            · exact absurd h (by decide)
            · exact absurd h List.not_mem_nil
          · rcases List.mem_cons.1 h with rfl | h
            · exact List.mem_cons_self
            · exact List.mem_cons_of_mem _ (ih wide_none h)

/-- Where only dots are shown nothing is under way and no byte is stray. -/
theorem text_of_reveal_dots (hp : ∀ p ∈ pending, p.Wide) {cs : List Char}
    (h : ∀ c ∈ reveal pending cs, c = '.') : pending = none ∧ ∀ c ∈ cs, isStray c = false := by
  have hnone : ∀ {pending : Option Pending}, (∀ c ∈ reveal pending [], c = '.') →
      pending = none := by
    intro pending h
    cases pending with
    | none => rfl
    | some p => exact absurd (h replacement List.mem_cons_self) (by decide)
  induction cs generalizing pending with
  | nil => exact ⟨hnone h, fun _ hc => absurd hc List.not_mem_nil⟩
  | cons c cs ih =>
      cases hc : isStray c with
      | true =>
          have hstep := step_stray (strayByte_ge hc) hp
          rw [reveal_stray hc] at h
          obtain ⟨hout, hrest⟩ := List.forall_mem_append.1 h
          -- the byte shows nothing, and so something is under way
          have hempty : (step pending (strayByte c).toNat).1 = [] :=
            List.eq_nil_iff_forall_not_mem.2 fun d hd => (hstep.unmarked d hd).2 (hout d hd)
          have hsome := hstep.shows hempty
          rw [(ih hstep.wide hrest).1] at hsome
          exact absurd hsome Bool.false_ne_true
      | false =>
          rw [reveal_plain hc] at h
          obtain ⟨hfirst, hrest⟩ := List.forall_mem_append.1 h
          obtain ⟨-, hcs⟩ := ih wide_none (List.forall_mem_cons.1 hrest).2
          exact ⟨hnone hfirst, List.forall_mem_cons.2 ⟨hc, hcs⟩⟩

end Utf8

/-! ### Shown texts -/

/-- A text that is shown as dots is these dots. -/
theorem shown_of_dots {s : String} (h : ∀ c ∈ (shown s).toList, c = '.') : shown s = s := by
  rw [toList_shown] at h
  exact shown_of_text (Utf8.text_of_reveal_dots Utf8.wide_none h).2

/-- What stands before and after a slash is shown for itself. -/
theorem shown_append_slash (s t : String) : shown (s ++ "/" ++ t) = shown s ++ "/" ++ shown t := by
  have hslash : "/".toList = ['/'] := by decide
  refine String.toList_inj.1 ?_
  rw [toList_shown, String.toList_append, String.toList_append, String.toList_append,
    String.toList_append, toList_shown, toList_shown, hslash, List.append_assoc, List.append_assoc]
  exact Utf8.reveal_append_slash none _ _

theorem shown_slash_append (t : String) : shown ("/" ++ t) = "/" ++ shown t := by
  have happend := shown_append_slash "" t
  rwa [shown_of_text (s := "") (by simp), String.empty_append] at happend

/-- Texts with slashes between them are shown one by one. -/
theorem shown_intercalate (ss : List String) :
    shown ("/".intercalate ss) = "/".intercalate (ss.map shown) := by
  induction ss with
  | nil => exact shown_of_text (by simp)
  | cons s ss ih =>
      cases ss with
      | nil => simp
      | cons t ss =>
          rw [String.intercalate_cons_cons, shown_append_slash, ih]
          exact String.intercalate_cons_cons.symm

end Text

namespace Path

variable {p : Path}

/-- **Names are shown as names.** -/
theorem isEntryName_shown {s : String} (h : IsEntryName s) : IsEntryName (Text.shown s) := by
  obtain ⟨htrivial, hup, hslash⟩ := h
  have hdots : ∀ t, (∀ c ∈ t.toList, c = '.') → Text.shown s = t → s = t := by
    intro t ht hs
    rw [← hs] at ht
    exact (Text.shown_of_dots ht).symm.trans hs
  refine ⟨?_, fun hs => hup (hdots ".." (by simp) hs), fun hmem => hslash ?_⟩
  · have hne : s ≠ "" ∧ s ≠ "." := by simpa [isTrivial] using htrivial
    have hempty : Text.shown s ≠ "" := fun hs => hne.1 (hdots "" (by simp) hs)
    have hdot : Text.shown s ≠ "." := fun hs => hne.2 (hdots "." (by simp) hs)
    simp [isTrivial, hempty, hdot]
  · rw [Text.toList_shown] at hmem
    exact Text.Utf8.slash_mem_of_mem_reveal Text.Utf8.wide_none hmem

/-! ### Shown paths -/

/-- A component as it is shown. -/
def Component.shown : Component → Component
  | .name s => .name (Text.shown s)
  | c => c

theorem Component.text_shown (c : Component) : c.shown.text = Text.shown c.text := by
  cases c with
  | name s => rfl
  | root | here | up =>
      exact (Text.shown_of_text (by simp [Component.shown, Component.text, Text.isStray])).symm

/-- **A path is shown name by name.** -/
theorem shown_ofComponents (cs : List Component) :
    (ofComponents cs).shown = (ofComponents (cs.map Component.shown)).text := by
  have htexts : ∀ cs : List Component, Text.shown ("/".intercalate (cs.map Component.text)) =
      "/".intercalate ((cs.map Component.shown).map Component.text) := by
    intro cs
    rw [Text.shown_intercalate, List.map_map, List.map_map]
    exact congrArg _ (List.map_congr_left fun c _ => c.text_shown.symm)
  cases cs with
  | nil => exact htexts []
  | cons c cs =>
      cases c with
      | root =>
          exact (Text.shown_slash_append _).trans (congrArg _ (htexts cs))
      | here | up | name => exact htexts (_ :: cs)

/-- A path that is shown as it is. -/
def IsText (p : Path) : Prop :=
  p.shown = p.text

instance : DecidablePred IsText := fun p => inferInstanceAs (Decidable (p.shown = p.text))

namespace IsText

/-- The segments of a path that is shown as it is are shown as they are. -/
theorem segments_shown (h : p.IsText) : p.segments.map Text.shown = p.segments := by
  have hspell : "/".intercalate (p.segments.map Text.shown) = p.text := by
    rw [← Text.shown_intercalate, intercalate_segments]
    exact h
  have hslash : ∀ s ∈ p.segments.map Text.shown, '/' ∉ s.toList := by
    intro s hs hmem
    obtain ⟨t, ht, rfl⟩ := List.mem_map.1 hs
    rw [Text.toList_shown] at hmem
    exact slash_notMem_of_mem_segments ht
      (Text.Utf8.slash_mem_of_mem_reveal Text.Utf8.wide_none hmem)
  have hne : p.segments.map Text.shown ≠ [] := by simp [segments_ne_nil]
  rw [← segments_intercalate hne hslash, hspell]

theorem shown_of_mem_components (h : p.IsText) {c : Component} (hc : c ∈ p.components) :
    c.shown = c := by
  obtain ⟨hparts, hspell⟩ := p.parts_spec
  have hsegments : ∀ s ∈ p.parts.2, Text.shown s = s := by
    intro s hs
    have hmem : s ∈ p.segments := hspell ▸ List.mem_append_right _ hs
    exact List.map_inj_left.1 (h.segments_shown.trans (List.map_id _).symm) s hmem
  rcases List.mem_append.1 hc with hc | hc
  · -- a path begins with the root or with a single dot, if with anything but a segment
    have hlead : p.parts.1 = some c := by simpa using hc
    rw [hlead] at hparts
    generalize p.parts.2 = segs at hparts
    cases hparts with
    | root | here => rfl
  · obtain ⟨s, hs, rfl⟩ := List.mem_map.1 hc
    unfold componentOf
    split
    case isTrue => rfl
    case isFalse => exact congrArg Component.name (hsegments s (List.mem_of_mem_filter hs))

end IsText

end Path

end EnvDiscovery
