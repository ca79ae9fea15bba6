import EnvDiscovery.Text.Ascii
import EnvDiscovery.Text.Blank
import EnvDiscovery.Text.Lines
import Mathlib.Data.List.Infix
import Mathlib.Data.List.TakeWhile

/-!
**Where a text begins, occurs and ends.**

A mark that overlaps with no shifted copy of itself is found exactly where it was put, whatever
stands before it: an earlier occurrence would lie inside the text before, or would share a part with
the mark itself.

Main definitions:
* `Text.Unbordered` — no end of the word is also its beginning, apart from nothing and the whole;
* `Text.LastNot` — a list that does not end with an element of some class.

Main results:
* `Text.afterStart?_eq_some_iff`, `Text.startsWith_iff`, `Text.occursIn_iff` — beginnings and
  occurrences;
* `Text.Unbordered.not_isPrefix` — **an unbordered word does not occur earlier than it was put**;
* `Text.trim_ne_empty` — trimming takes away only blanks;
* `Text.linesOf_closed` — the lines of a text whose lines all end in a carriage return and a line
  feed;
* `Text.mem_of_asciiLower`, `Text.lastNot_of_asciiLower` — what the case of letters does not touch.
-/

namespace EnvDiscovery.Text

/-! ### Beginnings -/

section Start

variable {α : Type} [BEq α] [LawfulBEq α] {start xs rest : List α}

@[simp] theorem afterStart?_append (start rest : List α) :
    afterStart? start (start ++ rest) = some rest := by
  induction start with
  | nil => rfl
  | cons a start ih => rw [List.cons_append, afterStart?, beq_self_eq_true, if_pos rfl, ih]

theorem afterStart?_eq_some_iff : afterStart? start xs = some rest ↔ xs = start ++ rest := by
  constructor
  · intro h
    fun_induction afterStart? start xs with
    | case1 xs => simpa using h
    | case2 a start x xs heq ih =>
        rw [eq_of_beq heq, ih h]
        rfl
    | case3 => cases h
    | case4 => cases h
  · rintro rfl
    exact afterStart?_append start rest

theorem afterStart?_eq_none_iff : afterStart? start xs = none ↔ ¬ start <+: xs := by
  rw [Option.eq_none_iff_forall_ne_some]
  constructor
  · rintro h ⟨rest, hrest⟩
    exact h rest (afterStart?_eq_some_iff.2 hrest.symm)
  · rintro h rest hrest
    exact h ⟨rest, (afterStart?_eq_some_iff.1 hrest).symm⟩

theorem occursIn_iff : occursIn start xs = true ↔ start <:+: xs := by
  induction xs with
  | nil => rw [occursIn, List.isEmpty_iff, List.infix_nil]
  | cons x xs ih =>
      rw [occursIn, Bool.or_eq_true, ih, List.infix_cons_iff, Option.isSome_iff_ne_none, Ne,
        afterStart?_eq_none_iff, not_not]

end Start

theorem startsWith_iff {start s : String} :
    startsWith start s = true ↔ start.toList <+: s.toList := by
  rw [startsWith, ← not_iff_not, ← afterStart?_eq_none_iff, Bool.not_eq_true,
    Option.isSome_eq_false_iff, Option.isNone_iff_eq_none]

/-! ### Occurrences -/

section Occurrence

variable {α : Type} {word xs rest : List α}

/-- Nothing but the empty list and the word itself both begins and ends the word. -/
def Unbordered (word : List α) : Prop :=
  ∀ part ∈ word.tails, part <+: word → part = [] ∨ part = word

instance [DecidableEq α] : Decidable (Unbordered word) :=
  inferInstanceAs (Decidable (∀ part ∈ word.tails, part <+: word → part = [] ∨ part = word))

/-- **An unbordered word does not occur earlier than it was put**, behind a text that does not
contain it. -/
theorem Unbordered.not_isPrefix (hword : Unbordered word) (hne : xs ≠ []) (hxs : ¬ word <:+: xs) :
    ¬ word <+: xs ++ (word ++ rest) := by
  intro h
  rcases Nat.le_total word.length xs.length with hle | hle
  · -- the occurrence lies inside the text before
    have hinside : word <+: xs := List.prefix_of_prefix_length_le h (List.prefix_append _ _) hle
    exact hxs hinside.isInfix
  · -- the occurrence reaches into the word, so that an end of the word begins it
    obtain ⟨part, hpart⟩ :=
      List.prefix_of_prefix_length_le (List.prefix_append xs (word ++ rest)) h hle
    have hends : part ∈ word.tails := (List.mem_tails _ _).2 ⟨xs, hpart⟩
    have hbegins : part <+: word := by
      rw [← hpart, List.prefix_append_right_inj, hpart] at h
      refine List.prefix_of_prefix_length_le h (List.prefix_append _ _) ?_
      rw [← hpart, List.length_append]
      omega
    have hlength : word.length = xs.length + part.length := by rw [← hpart, List.length_append]
    rcases hword part hends hbegins with rfl | rfl
    · rw [List.append_nil] at hpart
      exact hxs (hpart ▸ List.infix_rfl)
    · exact hne (List.length_eq_zero_iff.1 (by omega))

end Occurrence

/-! ### Ends -/

/-- The list does not end with an element that satisfies `p`. -/
def LastNot {α : Type} (p : α → Bool) (xs : List α) : Prop :=
  ∀ x ∈ xs.getLast?, p x = false

instance {α : Type} {p : α → Bool} {xs : List α} : Decidable (LastNot p xs) :=
  inferInstanceAs (Decidable (∀ x ∈ xs.getLast?, p x = false))

section Ends

variable {α : Type} {p : α → Bool} {xs ys : List α}

theorem dropEndWhile_of_lastNot (h : LastNot p xs) : dropEndWhile p xs = xs := by
  rcases List.eq_nil_or_concat xs with rfl | ⟨xs, x, rfl⟩
  · rfl
  · have hx : p x = false := h x (by simp)
    simp [dropEndWhile, hx]

theorem LastNot.append (h : LastNot p ys) (hne : ys ≠ []) : LastNot p (xs ++ ys) := by
  rw [LastNot, List.getLast?_append_of_ne_nil _ hne]
  exact h

theorem trimEnd_of_lastNot {s : String} (h : LastNot isBlank s.toList) : trimEnd s = s := by
  rw [trimEnd, dropEndWhile_of_lastNot h, String.ofList_toList]

theorem dropEndWhile_ne_nil {x : α} (hx : x ∈ xs) (h : p x = false) : dropEndWhile p xs ≠ [] := by
  rw [dropEndWhile, Ne, List.reverse_eq_nil_iff, List.dropWhile_eq_nil_iff]
  intro hall
  rw [hall x (List.mem_reverse.2 hx)] at h
  cases h

/-- A text with a character that is not blank has something left when it is trimmed. -/
theorem trim_ne_empty {s : String} {x : Char} (hx : x ∈ s.toList) (h : isBlank x = false) :
    trim s ≠ "" := by
  have hkept : x ∈ dropBlanks s.toList := by
    rw [← List.takeWhile_append_dropWhile (p := isBlank) (l := s.toList), List.mem_append] at hx
    rcases hx with hx | hx
    · rw [List.mem_takeWhile_imp hx] at h
      cases h
    · exact hx
  intro hempty
  refine dropEndWhile_ne_nil hkept h ?_
  rw [trim, String.ofList_eq_empty_iff] at hempty
  exact hempty

end Ends

/-! ### Lines -/

/-- The lines of a text whose lines all end in a carriage return and a line feed. -/
theorem linesOf_closed {lines : List (List Char)} (h : ∀ line ∈ lines, '\n' ∉ line) :
    linesOf (lines.flatMap (· ++ ['\r', '\n'])) = lines := by
  have hpieces : (lines.flatMap (· ++ ['\r', '\n'])).splitOn '\n' = lines.map (· ++ ['\r']) ++
      [[]] := by
    induction lines with
    | nil => rfl
    | cons line lines ih =>
        have hline : '\n' ∉ line ++ ['\r'] := by simpa using h line List.mem_cons_self
        have hsplit : (line ++ ['\r', '\n']) ++ lines.flatMap (· ++ ['\r', '\n'])
            = (line ++ ['\r']) ++ '\n' :: lines.flatMap (· ++ ['\r', '\n']) := by simp
        rw [List.flatMap_cons, hsplit, List.splitOn_append_cons_self_of_not_mem hline,
          ih fun l hl => h l (List.mem_cons_of_mem _ hl)]
        rfl
  have hreturns : (lines.map (· ++ ['\r'])).map dropReturn = lines := by
    rw [List.map_map]
    exact List.map_id'' (fun line => by simp [dropReturn]) lines
  rw [linesOf, hpieces]
  simp [hreturns]

/-! ### The case of letters -/

theorem toNat_toLower (c : Char) :
    c.toLower.toNat = if 65 ≤ c.toNat ∧ c.toNat ≤ 90 then c.toNat + 32 else c.toNat := by
  have hA : 'A'.val.toNat = 65 := rfl
  have hZ : 'Z'.val.toNat = 90 := rfl
  have hdiff : ('a'.val - 'A'.val).toNat = 32 := rfl
  unfold Char.toLower
  simp only [ge_iff_le, UInt32.le_iff_toNat_le, hA, hZ, Char.toNat_val]
  split
  case isTrue h =>
    rw [← Char.toNat_val, UInt32.toNat_add, hdiff, Char.toNat_val]
    omega
  case isFalse => rfl

theorem isAlpha_eq_false_iff {c : Char} :
    c.isAlpha = false ↔ ¬ (65 ≤ c.toNat ∧ c.toNat ≤ 90) ∧ ¬ (97 ≤ c.toNat ∧ c.toNat ≤ 122) := by
  have hA : 'A'.val.toNat = 65 := rfl
  have hZ : 'Z'.val.toNat = 90 := rfl
  have ha : 'a'.val.toNat = 97 := rfl
  have hz : 'z'.val.toNat = 122 := rfl
  have hupper : c.isUpper = decide ('A'.val ≤ c.val ∧ c.val ≤ 'Z'.val) := rfl
  have hlower : c.isLower = (decide ('a'.val ≤ c.val) && decide (c.val ≤ 'z'.val)) := rfl
  have halpha : c.isAlpha = (c.isUpper || c.isLower) := rfl
  simp only [halpha, hupper, hlower, Bool.or_eq_false_iff, Bool.and_eq_false_iff,
    decide_eq_false_iff_not, UInt32.le_iff_toNat_le, hA, hZ, ha, hz, Char.toNat_val]
  omega

/-- A character other than a letter has one case. -/
theorem eq_of_toLower_eq {c d : Char} (h : c.toLower = d.toLower) (hc : c.isAlpha = false) :
    d = c := by
  have hnat := congrArg Char.toNat h
  rw [toNat_toLower, toNat_toLower] at hnat
  rw [isAlpha_eq_false_iff] at hc
  rw [← Char.toNat_inj]
  split at hnat <;> split at hnat <;> omega

theorem isAlpha_of_isBlank {c : Char} (h : isBlank c = true) : c.isAlpha = false := by
  rw [isAlpha_eq_false_iff]
  simp [isBlank, blankRanges] at h
  omega

section Case

variable {s t : String}

theorem map_toLower_of_asciiLower (h : asciiLower s = asciiLower t) :
    s.toList.map Char.toLower = t.toList.map Char.toLower := by
  rw [asciiLower, asciiLower] at h
  exact String.ofList_injective h

theorem length_of_asciiLower (h : asciiLower s = asciiLower t) :
    s.toList.length = t.toList.length := by
  simpa using congrArg List.length (map_toLower_of_asciiLower h)

/-- The case of letters does not touch a character that is none. -/
theorem mem_of_asciiLower (h : asciiLower s = asciiLower t) {c : Char} (hc : c.isAlpha = false)
    (hmem : c ∈ s.toList) :
    c ∈ t.toList := by
  have hlower : c.toLower ∈ t.toList.map Char.toLower := by
    rw [← map_toLower_of_asciiLower h]
    exact List.mem_map_of_mem hmem
  obtain ⟨d, hd, hdc⟩ := List.mem_map.1 hlower
  exact eq_of_toLower_eq hdc.symm hc ▸ hd

/-- A text that does not end in a blank does not do so in another case. -/
theorem lastNot_of_asciiLower (h : asciiLower s = asciiLower t) (ht : LastNot isBlank t.toList) :
    LastNot isBlank s.toList := by
  intro c hc
  by_contra hblank
  rw [Bool.not_eq_false] at hblank
  have hlast := congrArg List.getLast? (map_toLower_of_asciiLower h)
  rw [List.getLast?_map, List.getLast?_map, Option.mem_def.1 hc, Option.map_some, eq_comm,
    Option.map_eq_some_iff] at hlast
  obtain ⟨d, hd, hdc⟩ := hlast
  have hsame : d = c := eq_of_toLower_eq hdc.symm (isAlpha_of_isBlank hblank)
  have := ht d hd
  rw [hsame, hblank] at this
  cases this

end Case

end EnvDiscovery.Text
