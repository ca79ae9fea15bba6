import EnvDiscovery.Proofs.Digits
import EnvDiscovery.Version.Reader

/-!
**Texts of versions.**

A text is read as a version if it opens with a number, after blanks and an optional `v`. Up to two
further numbers and a tag with a number may follow, and each part is taken as long as it goes. The
digits may be those of any script, but only ASCII digits that write a 32-bit number have a value:
the component of any other number is missing.

Main definitions:
* `Version.Numeral`, `Version.Tag`, `Version.Wording` — the parts of the text of a version;
* `Version.Wording.Opens` — a text opens with these parts, and none of them goes on;
* `Version.Numeral.Fits` — the numbers that have a value.

Main results:
* `Version.parseChars_eq_some_iff` — what is read as a version, and as which one;
* `Version.parse_render` — what is read of the spelling of a version;
* `Version.spellings_are_read_back` — **reading undoes spelling**, up to a final release;
* `Version.accepted_numbers_decide_use` — **an accepted text gives a usable version as far as its
  numbers have values**.
-/

namespace EnvDiscovery

namespace Text

theorem isDecimalDigit_of_isDigit {c : Char} (h : c.isDigit = true) : isDecimalDigit c = true := by
  have hc := toNat_of_isDigit h
  refine List.any_eq_true.2 ⟨0x30, by decide, ?_⟩
  simp only [Bool.and_eq_true, decide_eq_true_eq]
  omega

theorem digitRuns_apart_from_blanks :
    ∀ first ∈ digitRuns, ∀ range ∈ blankRanges, first + 10 ≤ range.1 ∨ range.2 < first := by
  decide

theorem not_isBlank_of_isDecimalDigit {c : Char} (h : isDecimalDigit c = true) :
    isBlank c = false := by
  obtain ⟨first, hfirst, hc⟩ := List.any_eq_true.1 h
  simp only [Bool.and_eq_true, decide_eq_true_eq] at hc
  refine List.any_eq_false.2 fun range hrange => ?_
  have hapart := digitRuns_apart_from_blanks first hfirst range hrange
  simp only [Bool.and_eq_true, decide_eq_true_eq]
  omega

end Text

namespace Version

open Text (HeadNot isDecimalDigit spanDigits)

/-! ### Numbers in a text -/

/-- A run of one or more digits of any script. -/
structure Numeral where
  digits : List Char
  ne_nil : digits ≠ []
  isDigit : ∀ c ∈ digits, isDecimalDigit c = true

namespace Numeral

/-- The component that a number gives, if it has a value. -/
def value? (n : Numeral) : Option UInt32 :=
  component? n.digits

/-- The number is written in ASCII digits and has 32 bits at most. -/
def Fits (n : Numeral) : Prop :=
  n.digits.all Char.isDigit = true ∧ Text.valueOfDigits n.digits < UInt32.size

theorem isSome_value?_iff {n : Numeral} : n.value?.isSome = true ↔ n.Fits := by
  rw [value?, component?, Text.natOfAscii?, Fits]
  by_cases hdigits : n.digits.all Char.isDigit = true
  · rw [if_pos ⟨n.ne_nil, hdigits⟩]
    by_cases hsize : Text.valueOfDigits n.digits < UInt32.size <;> simp [hdigits, hsize]
  · rw [if_neg fun h => hdigits h.2]
    simp [hdigits]

/-- The decimal digits of a number. -/
def ofUInt32 (k : UInt32) : Numeral where
  digits := Text.decimalChars k.toNat
  ne_nil := Text.decimalChars_ne_nil _
  isDigit _ h := Text.isDecimalDigit_of_isDigit (Text.isDigit_decimalChars h)

@[simp] theorem value?_ofUInt32 (k : UInt32) : (ofUInt32 k).value? = some k := by
  have hdigits : (Text.decimalChars k.toNat).all Char.isDigit = true :=
    List.all_eq_true.2 fun _ => Text.isDigit_decimalChars
  have hsize : k.toNat < UInt32.size := k.toNat_lt_size
  simp [value?, component?, ofUInt32, Text.natOfAscii?, Text.decimalChars_ne_nil, hdigits, hsize]

theorem isDecimalDigit_head {n : Numeral} {c : Char} {cs rest : List Char}
    (h : n.digits ++ rest = c :: cs) :
    isDecimalDigit c = true := by
  obtain ⟨d, ds, hds⟩ := List.exists_cons_of_ne_nil n.ne_nil
  rw [hds, List.cons_append, List.cons.injEq] at h
  exact h.1 ▸ n.isDigit d (by simp [hds])

theorem spanDigits_append (n : Numeral) {rest : List Char} (h : HeadNot isDecimalDigit rest) :
    spanDigits (n.digits ++ rest) = (n.digits, rest) := by
  rw [spanDigits, Text.takeWhile_append n.isDigit h, Text.dropWhile_append n.isDigit h]

end Numeral

theorem spanDigits_of_headNot {cs : List Char} (h : HeadNot isDecimalDigit cs) :
    spanDigits cs = ([], cs) := by
  have hnone : ∀ c ∈ ([] : List Char), isDecimalDigit c = true := by simp
  have htake : cs.takeWhile isDecimalDigit = [] := Text.takeWhile_append hnone h
  rw [spanDigits, htake, Text.dropWhile_of_headNot h]

theorem exists_numeral (cs : List Char) :
    HeadNot isDecimalDigit cs ∨ ∃ n : Numeral, ∃ rest, cs = n.digits ++ rest ∧
    HeadNot isDecimalDigit rest := by
  by_cases hnil : cs.takeWhile isDecimalDigit = []
  · left
    intro c hc
    obtain ⟨rest, rfl⟩ : ∃ rest, cs = c :: rest := List.head?_eq_some_iff.1 hc
    simpa [List.takeWhile_cons] using hnil
  · refine .inr ⟨⟨_, hnil, fun c hc => List.mem_takeWhile_imp hc⟩, _,
      List.takeWhile_append_dropWhile.symm, ?_⟩
    intro c hc
    have hhead := List.head?_dropWhile_not isDecimalDigit cs
    rw [Option.mem_def.1 hc] at hhead
    simpa using hhead

/-! ### Numbers after a point -/

/-- A point with a number after it, or nothing. -/
def pointed : Option Numeral → List Char
  | none => []
  | some n => '.' :: n.digits

/-- The text does not begin with a point that a number follows. -/
def NoPoint (cs : List Char) : Prop :=
  ∀ after, cs = '.' :: after → HeadNot isDecimalDigit after

theorem dotted_of_noPoint {cs : List Char} (h : NoPoint cs) : dotted cs = (none, cs) := by
  unfold dotted
  split
  · rename_i after
    rw [spanDigits_of_headNot (h after rfl)]
  · rfl

theorem dotted_pointed (n : Numeral) {rest : List Char} (h : HeadNot isDecimalDigit rest) :
    dotted (pointed (some n) ++ rest) = (some n.digits, rest) := by
  rw [pointed, List.cons_append, dotted, n.spanDigits_append h]
  split
  · rename_i hnil
    exact absurd (congrArg Prod.fst hnil) n.ne_nil
  · rename_i heq
    cases heq
    rfl

theorem exists_pointed {cs : List Char} (h : HeadNot isDecimalDigit cs) :
    ∃ o rest, cs = pointed o ++ rest ∧ HeadNot isDecimalDigit rest ∧ (o = none → NoPoint rest) := by
  by_cases hpoint : NoPoint cs
  · exact ⟨none, cs, rfl, h, fun _ => hpoint⟩
  · simp only [NoPoint, not_forall] at hpoint
    obtain ⟨after, rfl, hafter⟩ := hpoint
    obtain ⟨n, rest, rfl, hrest⟩ := (exists_numeral after).resolve_left hafter
    exact ⟨some n, rest, rfl, hrest, nofun⟩

/-- The numbers after the first one: the third is looked for only after a second. -/
theorem exists_pointed_twice {cs : List Char} (h : HeadNot isDecimalDigit cs) :
    ∃ minor micro rest, (micro.isSome = true → minor.isSome = true) ∧
    cs = pointed minor ++ pointed micro ++ rest ∧
      HeadNot isDecimalDigit rest ∧ (micro = none → NoPoint rest) := by
  obtain ⟨minor, rest, rfl, hrest, hminor⟩ := exists_pointed h
  cases minor with
  | none => exact ⟨none, none, rest, nofun, rfl, hrest, fun _ => hminor rfl⟩
  | some m =>
      obtain ⟨micro, rest', rfl, hrest', hmicro⟩ := exists_pointed hrest
      exact ⟨some m, micro, rest', fun _ => rfl, (List.append_assoc ..).symm, hrest', hmicro⟩

/-! ### Tags -/

/-- The tags of releases that are not final. -/
inductive Tag where
  | a
  | b
  | rc
  | c
deriving DecidableEq

namespace Tag

/-- The letters of a tag. -/
def chars : Tag → List Char
  | a => ['a']
  | b => ['b']
  | rc => ['r', 'c']
  | c => ['c']

/-- The level that a tag stands for. -/
def level : Tag → ReleaseLevel
  | a => .alpha
  | b => .beta
  | rc => .candidate
  | c => .candidate

end Tag

/-- The text does not begin with a tag that a number follows. -/
def NoTag (cs : List Char) : Prop :=
  ∀ (t : Tag) after, cs = t.chars ++ after → HeadNot isDecimalDigit after

/-- A tag and its number, or nothing. -/
def releaseChars : Option (Tag × Numeral) → List Char
  | none => []
  | some (t, n) => t.chars ++ n.digits

/-- The release that a tag and its number give. -/
def releaseOf (o : Option (Tag × Numeral)) : Option Release :=
  o.bind fun (t, n) => n.value?.map (⟨t.level, ·⟩)

theorem tagged_chars (t : Tag) (rest : List Char) :
    tagged (t.chars ++ rest) = some (t.level, rest) := by
  cases t <;> rfl

theorem eq_chars_of_tagged {cs after : List Char} {level : ReleaseLevel}
    (h : tagged cs = some (level, after)) :
    ∃ t : Tag, t.level = level ∧ cs = t.chars ++ after := by
  unfold tagged at h
  split at h <;> cases h
  · exact ⟨.a, rfl, rfl⟩
  · exact ⟨.b, rfl, rfl⟩
  · exact ⟨.rc, rfl, rfl⟩
  · exact ⟨.c, rfl, rfl⟩

theorem release?_of_noTag {cs : List Char} (h : NoTag cs) : release? cs = none := by
  unfold release?
  split
  · rename_i level after htagged
    obtain ⟨t, -, hcs⟩ := eq_chars_of_tagged htagged
    rw [spanDigits_of_headNot (h t after hcs)]
    rfl
  · rfl

theorem release?_chars (o : Option (Tag × Numeral)) {rest : List Char}
    (hrest : HeadNot isDecimalDigit rest) (htag : o = none → NoTag rest) :
    release? (releaseChars o ++ rest) = releaseOf o := by
  cases o with
  | none => exact release?_of_noTag (htag rfl)
  | some p =>
      obtain ⟨t, n⟩ := p
      simp only [release?, releaseChars, List.append_assoc, tagged_chars, n.spanDigits_append hrest]
      rfl

theorem exists_release {cs : List Char} (h : HeadNot isDecimalDigit cs) :
    ∃ o rest, cs = releaseChars o ++ rest ∧ HeadNot isDecimalDigit rest ∧
    (o = none → NoTag rest) := by
  by_cases htag : NoTag cs
  · exact ⟨none, cs, rfl, h, fun _ => htag⟩
  · simp only [NoTag, not_forall] at htag
    obtain ⟨t, after, rfl, hafter⟩ := htag
    obtain ⟨n, rest, rfl, hrest⟩ := (exists_numeral after).resolve_left hafter
    exact ⟨some (t, n), rest, (List.append_assoc ..).symm, hrest, nofun⟩

/-- What follows the numbers begins neither with a digit nor with a point. -/
theorem headNot_releaseChars (o : Option (Tag × Numeral)) {rest : List Char}
    (h : HeadNot isDecimalDigit rest) :
    HeadNot isDecimalDigit (releaseChars o ++ rest) := by
  cases o with
  | none => exact h
  | some p =>
      obtain ⟨t, n⟩ := p
      cases t <;> exact Text.headNot_cons.2 (by decide)

theorem noPoint_releaseChars (o : Option (Tag × Numeral)) {rest : List Char}
    (h : o = none → NoPoint rest) :
    NoPoint (releaseChars o ++ rest) := by
  cases o with
  | none => exact h rfl
  | some p =>
      obtain ⟨t, n⟩ := p
      intro after heq
      cases t <;> cases heq

/-! ### Whole texts -/

/-- The parts of the text of a version. -/
structure Wording where
  major : Numeral
  minor : Option Numeral
  micro : Option Numeral
  release : Option (Tag × Numeral)
  minor_of_micro : micro.isSome = true → minor.isSome = true

namespace Wording

variable {w : Wording} {cs rest : List Char}

/-- The parts in their order. -/
def chars (w : Wording) : List Char :=
  w.major.digits ++ (pointed w.minor ++ pointed w.micro ++ releaseChars w.release)

/-- The version of these parts. A part without a value is missing from it. -/
def version (w : Wording) : Version :=
  ⟨w.major.value?, w.minor.bind Numeral.value?, w.micro.bind Numeral.value?,
    releaseOf w.release, none⟩

/-- What follows the parts neither lengthens one of them nor adds one. -/
structure EndsAt (w : Wording) (rest : List Char) : Prop where
  digit : HeadNot isDecimalDigit rest
  point : w.release = none → w.micro = none → NoPoint rest
  tag : w.release = none → NoTag rest

/-- A text opens with these parts, after blanks and an optional `v`. -/
def Opens (w : Wording) (cs : List Char) : Prop :=
  ∃ blanks mark rest, cs = blanks ++ (mark ++ (w.chars ++ rest)) ∧
    (∀ c ∈ blanks, Text.isBlank c = true) ∧
    (mark = [] ∨ mark = ['v']) ∧ w.EndsAt rest

theorem endsAt_nil (w : Wording) : w.EndsAt [] where
  digit := Text.headNot_nil
  point _ _ := nofun
  tag _ t after h := by cases t <;> cases h

theorem EndsAt.headNot_tail (h : w.EndsAt rest) :
    HeadNot isDecimalDigit (pointed w.minor ++ pointed w.micro ++
      releaseChars w.release ++ rest) := by
  have hpoint : isDecimalDigit '.' = false := by decide
  have hrelease := headNot_releaseChars w.release h.digit
  cases w.minor with
  | some m => exact Text.headNot_cons.2 hpoint
  | none =>
      cases w.micro with
      | some m => exact Text.headNot_cons.2 hpoint
      | none => exact hrelease

/-- The numbers after the first, as they are taken one after the other. -/
theorem EndsAt.dotted_tail (h : w.EndsAt rest) :
    dotted (pointed w.minor ++ pointed w.micro ++ releaseChars w.release ++ rest) =
        (w.minor.map Numeral.digits, pointed w.micro ++ (releaseChars w.release ++ rest)) ∧
      dotted (pointed w.micro ++ (releaseChars w.release ++ rest)) =
        (w.micro.map Numeral.digits, releaseChars w.release ++ rest) := by
  have hdigit := headNot_releaseChars w.release h.digit
  have hnone : w.micro = none → NoPoint (releaseChars w.release ++ rest) :=
    fun hmicro => noPoint_releaseChars _ fun hrelease => h.point hrelease hmicro
  have hmicro : dotted (pointed w.micro ++ (releaseChars w.release ++ rest)) =
      (w.micro.map Numeral.digits, releaseChars w.release ++ rest) := by
    cases hm : w.micro with
    | none => exact dotted_of_noPoint (hnone hm)
    | some u => exact dotted_pointed u hdigit
  refine ⟨?_, hmicro⟩
  rw [List.append_assoc, List.append_assoc]
  cases hminor : w.minor with
  | none =>
      -- without a second number there is no third one either
      have hm : w.micro = none := by
        rw [← Option.not_isSome_iff_eq_none]
        intro hsome
        simpa [hminor] using w.minor_of_micro hsome
      rw [hm]
      exact dotted_of_noPoint (hnone hm)
  | some m =>
      refine dotted_pointed m ?_
      cases w.micro with
      | none => exact hdigit
      | some u => exact Text.headNot_cons.2 (by decide)

theorem bind_map_digits (o : Option Numeral) :
    (o.map Numeral.digits).bind component? = o.bind Numeral.value? := by
  cases o <;> rfl

end Wording

/-- The version that a number and what follows it give. -/
theorem parseChars_of_spanDigits {cs rest : List Char} {n : Numeral}
    (h : spanDigits (dropMark (Text.dropBlanks cs)) = (n.digits, rest)) :
    parseChars cs = some ⟨n.value?, (dotted rest).1.bind component?,
      (dotted (dotted rest).2).1.bind component?, release? (dotted (dotted rest).2).2, none⟩ := by
  rw [parseChars, h]
  split
  · rename_i hnil
    exact absurd (congrArg Prod.fst hnil) n.ne_nil
  · rename_i heq
    cases heq
    rfl

/-- What may precede a number is passed over. -/
theorem dropMark_dropBlanks (n : Numeral) {blanks mark rest : List Char}
    (hblanks : ∀ c ∈ blanks, Text.isBlank c = true) (hmark : mark = [] ∨ mark = ['v']) :
    dropMark (Text.dropBlanks (blanks ++ (mark ++ (n.digits ++ rest)))) = n.digits ++ rest := by
  obtain ⟨d, ds, hds⟩ : ∃ d ds, n.digits ++ rest = d :: ds :=
    List.exists_cons_of_ne_nil (by simp [n.ne_nil])
  have hd : isDecimalDigit d = true := n.isDecimalDigit_head hds
  rw [hds]
  rcases hmark with rfl | rfl
  · rw [List.nil_append, Text.dropBlanks, Text.dropWhile_append hblanks
      (Text.headNot_cons.2 (Text.not_isBlank_of_isDecimalDigit hd)), dropMark]
    intro cs heq
    cases heq
    revert hd
    decide
  · rw [List.singleton_append, Text.dropBlanks,
      Text.dropWhile_append hblanks (Text.headNot_cons.2 (by decide))]
    rfl

theorem exists_lead (cs : List Char) :
    ∃ blanks mark, cs = blanks ++ (mark ++ dropMark (Text.dropBlanks cs)) ∧
    (∀ c ∈ blanks, Text.isBlank c = true) ∧
      (mark = [] ∨ mark = ['v']) := by
  have hsplit : cs = cs.takeWhile Text.isBlank ++ Text.dropBlanks cs :=
    List.takeWhile_append_dropWhile.symm
  have hblanks : ∀ c ∈ cs.takeWhile Text.isBlank, Text.isBlank c = true :=
    fun c hc => List.mem_takeWhile_imp hc
  unfold dropMark
  split
  · rename_i after hdrop
    exact ⟨_, ['v'], by rw [List.singleton_append, ← hdrop]; exact hsplit, hblanks, .inr rfl⟩
  · exact ⟨_, [], hsplit, hblanks, .inl rfl⟩

theorem Wording.Opens.parseChars_eq {w : Wording} {cs : List Char} (h : w.Opens cs) :
    parseChars cs = some w.version := by
  obtain ⟨blanks, mark, rest, rfl, hblanks, hmark, hends⟩ := h
  have hspan : spanDigits (dropMark (Text.dropBlanks (blanks ++ (mark ++ (w.chars ++ rest))))) =
      (w.major.digits, pointed w.minor ++ pointed w.micro ++ releaseChars w.release ++ rest) := by
    rw [chars, List.append_assoc, dropMark_dropBlanks w.major hblanks hmark]
    exact w.major.spanDigits_append hends.headNot_tail
  obtain ⟨hminor, hmicro⟩ := hends.dotted_tail
  rw [parseChars_of_spanDigits hspan, hminor, hmicro, bind_map_digits, bind_map_digits,
    release?_chars w.release hends.digit hends.tag]
  rfl

theorem exists_opens_of_parseChars {cs : List Char} {v : Version} (h : parseChars cs = some v) :
    ∃ w : Wording, w.Opens cs := by
  obtain ⟨blanks, mark, hcs, hblanks, hmark⟩ := exists_lead cs
  rcases exists_numeral (dropMark (Text.dropBlanks cs)) with hnone | ⟨major, tail, hmajor, htail⟩
  · rw [parseChars, spanDigits_of_headNot hnone] at h
    cases h
  · obtain ⟨minor, micro, tail', hcontiguous, rfl, htail', hpoint⟩ := exists_pointed_twice htail
    obtain ⟨release, rest, rfl, hrest, htag⟩ := exists_release htail'
    refine ⟨⟨major, minor, micro, release, hcontiguous⟩, blanks, mark, rest, ?_, hblanks, hmark,
      hrest, ?_, htag⟩
    · rw [hcs, hmajor]
      simp [Wording.chars]
    · rintro rfl hmicro
      exact hpoint hmicro

/-- **What is read as a version**: a text that opens with the parts of one. -/
theorem parseChars_eq_some_iff {cs : List Char} {v : Version} :
    parseChars cs = some v ↔ ∃ w : Wording, w.Opens cs ∧ v = w.version := by
  constructor
  · intro h
    obtain ⟨w, hw⟩ := exists_opens_of_parseChars h
    exact ⟨w, hw, Option.some.inj (h.symm.trans hw.parseChars_eq)⟩
  · rintro ⟨w, hw, rfl⟩
    exact hw.parseChars_eq

/-! ### Spelling and reading -/

/-- The tag in the spelling of a level, unless it is the final one. -/
def shortTag? : ReleaseLevel → Option Tag
  | .alpha => some .a
  | .beta => some .b
  | .candidate => some .rc
  | .final => none

/-- What the spelling of a version says of it: the third number only after a second one, no final
release, and no text of the interpreter. -/
def spelt (v : Version) : Version where
  major := v.major
  minor := v.minor
  micro := v.minor.bind fun _ => v.micro
  release := v.release.filter (·.level != .final)
  sysVersion := none

/-- The parts in which a version with the given first number is spelled. -/
def wording (v : Version) (major : UInt32) : Wording where
  major := .ofUInt32 major
  minor := v.minor.map .ofUInt32
  micro := v.minor.bind fun _ => v.micro.map .ofUInt32
  release := v.release.bind fun r => (shortTag? r.level).map (·, .ofUInt32 r.serial)
  minor_of_micro := by cases v.minor <;> simp

theorem toList_render {v : Version} {major : UInt32} (h : v.major = some major) :
    v.render.toList = (v.wording major).chars := by
  have hnumbers : (renderMinor v.minor v.micro).toList =
      pointed (v.minor.map .ofUInt32) ++ pointed (v.minor.bind fun _ => v.micro.map .ofUInt32) := by
    cases v.minor with
    | none => rfl
    | some m => cases v.micro <;> simp [renderMinor, pointed, Text.decimal, Numeral.ofUInt32]
  have hrelease : (renderRelease v.release).toList =
      releaseChars (v.release.bind fun r => (shortTag? r.level).map (·, .ofUInt32 r.serial)) := by
    rcases v.release with - | ⟨level, serial⟩
    · rfl
    · cases level <;>
        simp [renderRelease, releaseChars, shortTag?, ReleaseLevel.tag, Tag.chars, Text.decimal,
          Numeral.ofUInt32]
  simp only [render, h, String.toList_append, hnumbers, hrelease]
  simp [Wording.chars, wording, Numeral.ofUInt32, Text.decimal]

theorem version_wording {v : Version} {major : UInt32} (h : v.major = some major) :
    (v.wording major).version = v.spelt := by
  have hmicro : (v.minor.bind fun _ => v.micro.map .ofUInt32).bind Numeral.value? =
      v.minor.bind fun _ => v.micro := by
    cases v.minor <;> cases v.micro <;> simp
  have hrelease : releaseOf (v.release.bind fun r =>
    (shortTag? r.level).map (·, Numeral.ofUInt32 r.serial)) =
      v.release.filter (·.level != .final) := by
    rcases v.release with - | ⟨level, serial⟩
    · rfl
    · cases level <;> simp [releaseOf, shortTag?, Tag.level] <;> rfl
  simp only [Wording.version, wording, spelt, hmicro, hrelease, h, Numeral.value?_ofUInt32,
    mk.injEq, true_and, and_true]
  cases v.minor <;> simp

/-- **What is read of a spelling** is what it says. -/
theorem parse_render {v : Version} (h : v.isUnknown = false) : parse v.render = some v.spelt := by
  obtain ⟨major, hmajor⟩ : ∃ major, v.major = some major :=
    Option.isSome_iff_exists.1 (by simpa [isUnknown] using h)
  have hopens : (v.wording major).Opens v.render.toList :=
    ⟨[], [], [], by simp [toList_render hmajor], by simp, .inl rfl, (v.wording major).endsAt_nil⟩
  rw [parse, hopens.parseChars_eq, version_wording hmajor]

theorem parse_render_of_isUnknown {v : Version} (h : v.isUnknown = true) :
    parse v.render = none := by
  have hmajor : v.major = none := by simpa [isUnknown] using h
  have hrender : v.render = "unknown" := by rw [render, hmajor]
  rw [hrender]
  decide

/-- The numbers are known from the first one on, without gaps. -/
def Contiguous (v : Version) : Prop :=
  v.micro.isSome = true → v.minor.isSome = true

theorem spelt_eq_self_iff {v : Version} :
    v.spelt = v ↔ v.Contiguous ∧ (∀ r ∈ v.release, r.level ≠ .final) ∧ v.sysVersion = none := by
  obtain ⟨major, minor, micro, release, sysVersion⟩ := v
  have hmicro : (minor.bind fun _ => micro) = micro ↔
      (micro.isSome = true → minor.isSome = true) := by
    cases minor <;> cases micro <;> simp
  have hrelease : release.filter (·.level != .final) = release ↔
      ∀ r ∈ release, r.level ≠ .final := by
    rcases release with - | ⟨level, serial⟩
    · simp
    · cases level <;> simp [Option.filter]
  simp only [spelt, mk.injEq, true_and, Contiguous, hmicro, hrelease, @eq_comm _ none]

/-- The versions that are read from their own spelling. -/
theorem parse_render_eq_self_iff {v : Version} :
    parse v.render = some v ↔ v.isUnknown = false ∧ v.spelt = v := by
  cases h : v.isUnknown with
  | true => simp [parse_render_of_isUnknown h]
  | false => simp [parse_render h]

/-- **Reading undoes spelling**: a version whose numbers are known from the first one on is read
back as it is, but for a final release, which its spelling does not show. -/
theorem spellings_are_read_back (v : Version) (hmajor : v.major.isSome = true)
    (hmicro : v.micro.isSome = true → v.minor.isSome = true) (hsys : v.sysVersion = none) :
    ((∀ r, v.release = some r → r.level ≠ .final) → parse v.render = some v) ∧
      ∀ serial, v.release = some ⟨.final, serial⟩ →
        parse v.render = some { v with release := none } := by
  have hread : parse v.render = some v.spelt := parse_render (by simpa [isUnknown] using hmajor)
  constructor
  · intro hrelease
    rw [hread, spelt_eq_self_iff.2 ⟨hmicro, hrelease, hsys⟩]
  · intro serial hfinal
    -- without its release the version is one of those that are read back as they are
    have hrest : spelt { v with release := none } = { v with release := none } :=
      spelt_eq_self_iff.2 ⟨hmicro, nofun, hsys⟩
    rw [hread, ← hrest, spelt, spelt, hfinal]
    rfl

/-- A candidate of which only the first number is known, and a final release. -/
theorem spellings_are_read_back_candidate :
    let v : Version := ⟨some 3, none, none, some ⟨.candidate, 4294967295⟩, none⟩
    let w : Version := ⟨some 3, some 0, some 10, some ⟨.final, 7⟩, none⟩
    (v.render = "3rc4294967295" ∧ w.render = "3.0.10") ∧
      parse v.render = some v ∧ parse w.render = some ⟨some 3, some 0, some 10, none, none⟩ := by
  intro v w
  refine ⟨by decide, ?_, ?_⟩
  · exact (spellings_are_read_back v (by decide) (by decide) rfl).1 (by rintro r ⟨⟩; decide)
  · exact (spellings_are_read_back w (by decide) (by decide) rfl).2 7 rfl

/-! ### Accepted texts -/

theorem isSome_bind_value?_iff {o : Option Numeral} :
    (o.bind Numeral.value?).isSome = true ↔ ∃ n ∈ o, n.Fits := by
  cases o <;> simp [Numeral.isSome_value?_iff]

namespace Wording

variable (w : Wording)

theorem isUnknown_version_iff : w.version.isUnknown = false ↔ w.major.Fits := by
  rw [← Numeral.isSome_value?_iff, isUnknown, version, Option.isNone_eq_false_iff]

theorem contiguous_version_iff :
    w.version.Contiguous ↔ ∀ m ∈ w.minor, ∀ u ∈ w.micro, u.Fits → m.Fits := by
  simp only [Contiguous, version, isSome_bind_value?_iff]
  constructor
  · intro h m hm u hu hfits
    obtain ⟨m', hm', hfits'⟩ := h ⟨u, hu, hfits⟩
    cases Option.mem_unique hm hm'
    exact hfits'
  · rintro h ⟨u, hu, hfits⟩
    obtain ⟨m, hm⟩ := Option.isSome_iff_exists.1 (w.minor_of_micro (Option.isSome_of_mem hu))
    exact ⟨m, hm, h m hm u hu hfits⟩

/-- No tag stands for a final release, so only a gap in the numbers is lost in spelling what was
read. -/
theorem spelt_version_iff : w.version.spelt = w.version ↔ w.version.Contiguous := by
  rw [spelt_eq_self_iff]
  refine and_iff_left ⟨?_, rfl⟩
  intro r hr
  obtain ⟨⟨t, n⟩, -, hvalue⟩ := Option.bind_eq_some_iff.1 hr
  obtain ⟨serial, -, rfl⟩ := Option.map_eq_some_iff.1 hvalue
  cases t <;> nofun

end Wording

/-- **The numbers of an accepted text decide what its version is good for.** The version is known
exactly if the first number has a value, its numbers are known without gaps exactly if the second
has a value whenever the third has one, and it is read from its own spelling exactly if both is
so. -/
theorem accepted_numbers_decide_use (s : String) (v : Version) (h : parse s = some v) :
    ∃ w : Wording, w.Opens s.toList ∧ v = w.version ∧
      (v.isUnknown = false ↔ w.major.Fits) ∧
      ((v.micro.isSome = true → v.minor.isSome = true) ↔
        ∀ m ∈ w.minor, ∀ u ∈ w.micro, u.Fits → m.Fits) ∧
      (parse v.render = some v ↔ v.isUnknown = false ∧
        (v.micro.isSome = true → v.minor.isSome = true)) := by
  obtain ⟨w, hw, rfl⟩ := parseChars_eq_some_iff.1 h
  refine ⟨w, hw, rfl, w.isUnknown_version_iff, w.contiguous_version_iff, ?_⟩
  rw [parse_render_eq_self_iff, w.spelt_version_iff]
  rfl

/-- A text with all parts, of which the third number has no value. -/
theorem accepted_numbers_decide_use_oversized :
    let s := "\tv3.10.4294967296rc1-dev"
    let v : Version := ⟨some 3, some 10, none, some ⟨.candidate, 1⟩, none⟩
    parse s = some v ∧ ∃ w : Wording, w.Opens s.toList ∧ v = w.version ∧
      (v.isUnknown = false ↔ w.major.Fits) ∧
      ((v.micro.isSome = true → v.minor.isSome = true) ↔
        ∀ m ∈ w.minor, ∀ u ∈ w.micro, u.Fits → m.Fits) ∧
      (parse v.render = some v ↔ v.isUnknown = false ∧
        (v.micro.isSome = true → v.minor.isSome = true)) := by
  intro s v
  have h : parse s = some v := by decide +kernel
  exact ⟨h, accepted_numbers_decide_use s v h⟩

/-- Numbers that do not fit: a first one leaves the version unknown, and a second one leaves a gap,
so that the third is lost when the version is spelled. -/
theorem oversized_numbers_are_dropped :
    (parse "4294967296" = some unknown ∧ unknown.isUnknown = true ∧ parse unknown.render = none) ∧
      let v : Version := ⟨some 3, none, some 5, none, none⟩
      parse "3.4294967296.5" = some v ∧ parse v.render = some ⟨some 3, none, none, none, none⟩ := by
  decide +kernel

end Version

end EnvDiscovery
