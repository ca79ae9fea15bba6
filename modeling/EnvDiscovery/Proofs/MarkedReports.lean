import EnvDiscovery.Resolution.Report
import EnvDiscovery.Proofs.Occurrences
import EnvDiscovery.Proofs.WrittenRecords

/-!
**Reports between marks.**

The report of an interpreter stands between two marks in what it prints. Neither mark overlaps with
a shifted copy of itself, so the first mark is found where it was put if nothing before it contains
it, also behind a part of a mark. The marks are ASCII, and a byte below 128 is a character of its
own in UTF-8, so that a search by bytes finds the same places and never cuts a character.

Main definitions:
* `Report.Says` — what a payload says, in terms of the JSON text it is;
* `Report.utf8`, `Report.byteIndex?`, `Report.byteSlice?` — a text as bytes, the search for a word,
  and the part between two offsets;
* `Report.parseByOffsets?` — the search for the report by byte offsets, without a result where an
  offset lies inside a character.

Main results:
* `Report.payload?_between`, `Report.eq_of_payload?` — the payload is what stands between the marks;
* `Report.byteIndex?_utf8` — **a search for ASCII by bytes finds what a search by characters
  finds**;
* `Report.parseByOffsets?_eq` — no offset lies inside a character;
* `Report.decode_eq_some_iff` — what is read is what the payload says;
* `Report.only_payload_counts` — **whatever stands around the report, it is read as what its payload
  says**.
-/

namespace EnvDiscovery.Report

open Text (Unbordered)

/-! ### Between the marks -/

section Cut

variable {mark xs before : List Char}

theorem cutAt_append (hmark : Unbordered mark) (hne : mark ≠ []) (hbefore : ¬ mark <:+: before)
    (after : List Char) :
    cutAt mark (before ++ (mark ++ after)) = some (before, after) := by
  induction before with
  | nil =>
      obtain ⟨c, cs, rfl⟩ := List.exists_cons_of_ne_nil hne
      rw [List.nil_append, List.cons_append, cutAt, ← List.cons_append, Text.afterStart?_append]
  | cons c before ih =>
      have hlater : Text.afterStart? mark (c :: before ++ (mark ++ after)) = none :=
        Text.afterStart?_eq_none_iff.2 (hmark.not_isPrefix (List.cons_ne_nil c before) hbefore)
      rw [List.cons_append] at hlater ⊢
      rw [cutAt, hlater]
      dsimp only
      rw [ih fun h => hbefore (List.infix_cons h)]
      rfl

theorem eq_of_cutAt {after : List Char} (h : cutAt mark xs = some (before, after)) :
    xs = before ++ (mark ++ after) := by
  induction xs generalizing before with
  | nil =>
      rw [cutAt] at h
      split at h
      case isTrue hempty =>
        obtain ⟨rfl, rfl⟩ := Prod.mk.inj (Option.some_inj.1 h)
        simpa using hempty
      case isFalse => cases h
  | cons c cs ih =>
      rw [cutAt] at h
      split at h
      case h_1 rest hrest =>
        obtain ⟨rfl, rfl⟩ := Prod.mk.inj (Option.some_inj.1 h)
        rw [List.nil_append]
        exact Text.afterStart?_eq_some_iff.1 hrest
      case h_2 =>
        obtain ⟨⟨left, right⟩, hcut, heq⟩ := Option.map_eq_some_iff.1 h
        obtain ⟨rfl, rfl⟩ := Prod.mk.inj heq
        rw [List.cons_append, ← ih hcut]

end Cut

theorem unbordered_opening : Unbordered opening.toList := by decide

theorem unbordered_closing : Unbordered closing.toList := by decide

/-- **The payload is what stands between the marks**, whatever stands before and after them. -/
theorem payload?_between {before payload : List Char} (hbefore : ¬ opening.toList <:+: before)
    (hpayload : ¬ closing.toList <:+: payload) (after : List Char) :
    payload? (before ++ (opening.toList ++ (payload ++ (closing.toList ++ after)))) =
      some payload := by
  have hopening :=
    cutAt_append unbordered_opening (by decide) hbefore (payload ++ (closing.toList ++ after))
  have hclosing := cutAt_append unbordered_closing (by decide) hpayload after
  exact Option.bind_eq_some_iff.2 ⟨_, hopening, Option.bind_eq_some_iff.2 ⟨_, hclosing, rfl⟩⟩

/-- A payload is found only between two marks. -/
theorem eq_of_payload? {stdout payload : List Char} (h : payload? stdout = some payload) :
    ∃ before after, stdout = before ++ (opening.toList ++
      (payload ++ (closing.toList ++ after))) := by
  obtain ⟨⟨before, rest⟩, hopening, h⟩ := Option.bind_eq_some_iff.1 h
  obtain ⟨⟨part, after⟩, hclosing, h⟩ := Option.bind_eq_some_iff.1 h
  obtain rfl := Option.some_inj.1 h
  exact ⟨before, after, by rw [eq_of_cutAt hopening, eq_of_cutAt hclosing]⟩

/-! ### Bytes -/

/-- The UTF-8 bytes of a text. -/
def utf8 (cs : List Char) : List UInt8 :=
  cs.flatMap String.utf8EncodeChar

/-- The offset at which a word first occurs in a sequence of bytes. -/
def byteIndex? (word : List UInt8) : List UInt8 → Option Nat
  | [] => if word.isEmpty then some 0 else none
  | b :: bs => if word.isPrefixOf (b :: bs) then some 0 else (byteIndex? word bs).map (· + 1)

/-- What precedes and what follows a byte offset, if it lies between two characters. -/
def splitAtByte? : Nat → List Char → Option (List Char × List Char)
  | 0, cs => some ([], cs)
  | _ + 1, [] => none
  | n + 1, c :: cs =>
    if c.utf8Size ≤ n + 1 then
      (splitAtByte? (n + 1 - c.utf8Size) cs).map fun (l, r) => (c :: l, r)
    else none

/-- The part of a text between two byte offsets, if they lie between characters. -/
def byteSlice? (start stop : Nat) (cs : List Char) : Option (List Char) :=
  if start ≤ stop then
    (splitAtByte? start cs).bind fun (_, rest) => (splitAtByte? (stop - start) rest).map Prod.fst
  else none

/-- What an interpreter says of itself, by byte offsets. There is no result if an offset lies inside
a character. -/
def parseByOffsets? (stdout : List Char) : Option (Option InterpreterInfo) :=
  match byteIndex? (utf8 opening.toList) (utf8 stdout) with
  | none => some none
  | some found =>
    let start := found + (utf8 opening.toList).length
    (byteSlice? start (utf8 stdout).length stdout).bind fun rest =>
      match byteIndex? (utf8 closing.toList) (utf8 rest) with
      | none => some none
      | some length => (byteSlice? start (start + length) stdout).map decode

section Bytes

variable {c : Char} {cs mark before after : List Char}

@[simp] theorem utf8_nil : utf8 [] = [] := rfl

@[simp] theorem utf8_cons (c : Char) (cs : List Char) :
    utf8 (c :: cs) = String.utf8EncodeChar c ++ utf8 cs := rfl

@[simp] theorem utf8_append (cs ds : List Char) : utf8 (cs ++ ds) = utf8 cs ++ utf8 ds :=
  List.flatMap_append

/-- An ASCII character is one byte; the bytes of any other character are no ASCII. -/
theorem utf8EncodeChar_cases (c : Char) :
    (c.toNat < 128 ∧ String.utf8EncodeChar c = [UInt8.ofNat c.toNat]) ∨
    (128 ≤ c.toNat ∧ ∃ b bs, String.utf8EncodeChar c = b :: bs ∧ ∀ x ∈ b :: bs, 128 ≤ x.toNat) := by
  have hhigh : ∀ n, 128 ≤ n → n < 256 → 128 ≤ (UInt8.ofNat n).toNat := by
    intro n hlo hhi
    rw [UInt8.toNat_ofNat']
    omega
  rw [← Char.toNat_val, String.utf8EncodeChar]
  split
  case isTrue h => exact .inl ⟨by omega, rfl⟩
  case isFalse h =>
    refine .inr ⟨by omega, ?_⟩
    split
    · refine ⟨_, _, rfl, ?_⟩
      simp only [List.forall_mem_cons]
      exact ⟨hhigh _ (by omega) (by omega), hhigh _ (by omega) (by omega), nofun⟩
    · split
      · refine ⟨_, _, rfl, ?_⟩
        simp only [List.forall_mem_cons]
        exact ⟨hhigh _ (by omega) (by omega), hhigh _ (by omega) (by omega),
          hhigh _ (by omega) (by omega), nofun⟩
      · refine ⟨_, _, rfl, ?_⟩
        simp only [List.forall_mem_cons]
        exact ⟨hhigh _ (by omega) (by omega), hhigh _ (by omega) (by omega),
          hhigh _ (by omega) (by omega), hhigh _ (by omega) (by omega), nofun⟩

theorem utf8EncodeChar_ascii (h : c.toNat < 128) :
    String.utf8EncodeChar c = [UInt8.ofNat c.toNat] := by
  rcases utf8EncodeChar_cases c with ⟨-, hone⟩ | ⟨hlarge, -⟩
  · exact hone
  · omega

/-- A text of ASCII characters. -/
def IsAscii (cs : List Char) : Prop :=
  ∀ c ∈ cs, c.toNat < 128

/-- Among the bytes of a text, an ASCII word begins where it begins among the characters. -/
theorem utf8_isPrefix_iff (hmark : IsAscii mark) : utf8 mark <+: utf8 cs ↔ mark <+: cs := by
  constructor
  · intro h
    induction mark generalizing cs with
    | nil => exact List.nil_prefix
    | cons m mark ih =>
        have hm : m.toNat < 128 := hmark m List.mem_cons_self
        rw [utf8_cons, utf8EncodeChar_ascii hm, List.singleton_append] at h
        cases cs with
        | nil => exact absurd (List.prefix_nil.1 h) (List.cons_ne_nil _ _)
        | cons c cs =>
            rw [utf8_cons] at h
            rcases utf8EncodeChar_cases c with ⟨hc, hone⟩ | ⟨-, b, bs, hmany, hlarge⟩
            · rw [hone, List.singleton_append, List.cons_prefix_cons] at h
              have hsame : m = c := by
                have := congrArg UInt8.toNat h.1
                rw [UInt8.toNat_ofNat', UInt8.toNat_ofNat'] at this
                exact Char.toNat_inj.1 (by omega)
              rw [hsame, List.cons_prefix_cons]
              exact ⟨rfl, ih (fun d hd => hmark d (List.mem_cons_of_mem _ hd)) h.2⟩
            · rw [hmany, List.cons_append, List.cons_prefix_cons] at h
              have hb := hlarge b List.mem_cons_self
              rw [← h.1, UInt8.toNat_ofNat'] at hb
              omega
  · rintro ⟨rest, rfl⟩
    rw [utf8_append]
    exact List.prefix_append _ _

theorem byteIndex?_of_isPrefix {word bs : List UInt8} (h : word <+: bs) :
    byteIndex? word bs = some 0 := by
  cases bs with
  | nil => rw [List.prefix_nil.1 h, byteIndex?, List.isEmpty_nil, if_pos rfl]
  | cons b bs =>
      rw [byteIndex?, if_pos]
      simpa using h

theorem byteIndex?_cons_of_not_isPrefix {word bs : List UInt8} {b : UInt8}
    (h : ¬ word <+: b :: bs) :
    byteIndex? word (b :: bs) = (byteIndex? word bs).map (· + 1) := by
  rw [byteIndex?, if_neg]
  simpa using h

/-- An ASCII word does not begin inside a character. -/
theorem byteIndex?_append (hmark : IsAscii mark) (hne : mark ≠ []) {bs : List UInt8}
    (hbs : ∀ b ∈ bs, 128 ≤ b.toNat) (rest : List UInt8) :
    byteIndex? (utf8 mark) (bs ++ rest) = (byteIndex? (utf8 mark) rest).map (· + bs.length) := by
  induction bs with
  | nil => simp
  | cons b bs ih =>
      have hnot : ¬ utf8 mark <+: b :: (bs ++ rest) := by
        obtain ⟨m, mark, rfl⟩ := List.exists_cons_of_ne_nil hne
        have hm : m.toNat < 128 := hmark m List.mem_cons_self
        rw [utf8_cons, utf8EncodeChar_ascii hm, List.singleton_append, List.cons_prefix_cons]
        rintro ⟨heq, -⟩
        have hb := hbs b List.mem_cons_self
        rw [← heq, UInt8.toNat_ofNat'] at hb
        omega
      rw [List.cons_append, byteIndex?_cons_of_not_isPrefix hnot,
        ih fun x hx => hbs x (List.mem_cons_of_mem _ hx), Option.map_map, List.length_cons]
      rfl

/-- **A search for ASCII by bytes finds what a search by characters finds.** -/
theorem byteIndex?_utf8 (hmark : IsAscii mark) (hne : mark ≠ []) (cs : List Char) :
    byteIndex? (utf8 mark) (utf8 cs) = (cutAt mark cs).map fun cut => (utf8 cut.1).length := by
  induction cs with
  | nil =>
      obtain ⟨m, mark, rfl⟩ := List.exists_cons_of_ne_nil hne
      rw [utf8_cons, utf8EncodeChar_ascii (hmark m List.mem_cons_self)]
      rfl
  | cons c cs ih =>
      rw [cutAt]
      cases hstart : Text.afterStart? mark (c :: cs) with
      | some rest =>
          have hbegins : mark <+: c :: cs := ⟨rest, (Text.afterStart?_eq_some_iff.1 hstart).symm⟩
          exact byteIndex?_of_isPrefix ((utf8_isPrefix_iff hmark).2 hbegins)
      | none =>
          -- the first byte begins no mark, and the other bytes of the character are no ASCII
          have hnot : ¬ utf8 mark <+: utf8 (c :: cs) := by
            rw [utf8_isPrefix_iff hmark]
            exact Text.afterStart?_eq_none_iff.1 hstart
          obtain ⟨b, bs, hbytes, hbs⟩ : ∃ b bs, String.utf8EncodeChar c = b :: bs ∧
              ∀ x ∈ bs, 128 ≤ x.toNat := by
            rcases utf8EncodeChar_cases c with ⟨-, hone⟩ | ⟨-, b, bs, hmany, hlarge⟩
            · exact ⟨_, [], hone, nofun⟩
            · exact ⟨b, bs, hmany, fun x hx => hlarge x (List.mem_cons_of_mem _ hx)⟩
          rw [utf8_cons, hbytes, List.cons_append] at hnot ⊢
          rw [byteIndex?_cons_of_not_isPrefix hnot, byteIndex?_append hmark hne hbs, ih]
          simp only [Option.map_map]
          refine congrArg (Option.map · _) (funext fun cut => ?_)
          simp [hbytes]
          omega

theorem splitAtByte?_utf8 (before after : List Char) :
    splitAtByte? (utf8 before).length (before ++ after) = some (before, after) := by
  induction before with
  | nil => rw [utf8_nil, List.length_nil, splitAtByte?, List.nil_append]
  | cons c before ih =>
      have hsize : (utf8 (c :: before)).length = c.utf8Size + (utf8 before).length := by
        rw [utf8_cons, List.length_append, String.length_utf8EncodeChar]
      obtain ⟨n, hn⟩ : ∃ n, (utf8 (c :: before)).length = n + 1 := by
        have hpos := Char.utf8Size_pos c
        exact ⟨_, (Nat.succ_pred_eq_of_pos (by omega)).symm⟩
      have hrest : n + 1 - c.utf8Size = (utf8 before).length := by omega
      rw [hn, List.cons_append, splitAtByte?, if_pos (by omega), hrest, ih]
      rfl

/-- The part between the offsets at which it begins and ends. -/
theorem byteSlice?_utf8 (before part after : List Char) :
    byteSlice? (utf8 before).length ((utf8 before).length + (utf8 part).length)
    (before ++ (part ++ after)) =
      some part := by
  rw [byteSlice?, if_pos (Nat.le_add_right _ _), splitAtByte?_utf8, Option.bind_some,
    Nat.add_sub_cancel_left]
  dsimp only
  rw [splitAtByte?_utf8, Option.map_some]

end Bytes

theorem isAscii_opening : IsAscii opening.toList := by
  simp [IsAscii, opening]

theorem isAscii_closing : IsAscii closing.toList := by
  simp [IsAscii, closing]

/-- **No offset lies inside a character**, and the search by offsets reads the same report. -/
theorem parseByOffsets?_eq (stdout : String) :
    parseByOffsets? stdout.toList = some (parse stdout) := by
  rw [parseByOffsets?, byteIndex?_utf8 isAscii_opening (by decide), parse, payload?]
  cases hopening : cutAt opening.toList stdout.toList with
  | none => rfl
  | some cut =>
      obtain ⟨before, rest⟩ := cut
      have hstdout : stdout.toList = (before ++ opening.toList) ++ rest := by
        rw [eq_of_cutAt hopening, List.append_assoc]
      have hstart : (utf8 before).length + (utf8 opening.toList).length =
          (utf8 (before ++ opening.toList)).length := by
        rw [utf8_append, List.length_append]
      have hrest :
          byteSlice? (utf8 (before ++ opening.toList)).length (utf8 stdout.toList).length
            stdout.toList = some rest := by
        have hslice := byteSlice?_utf8 (before ++ opening.toList) rest []
        rwa [List.append_nil, ← List.length_append, ← utf8_append, ← hstdout] at hslice
      rw [Option.map_some]
      dsimp only
      rw [hstart, hrest, Option.bind_some, byteIndex?_utf8 isAscii_closing (by decide)]
      cases hclosing : cutAt closing.toList rest with
      | none =>
          rw [Option.map_none]
          dsimp only [Option.bind_eq_bind, Option.bind_some]
          rw [hclosing]
          rfl
      | some cut =>
          obtain ⟨payload, after⟩ := cut
          have hslice :=
            byteSlice?_utf8 (before ++ opening.toList) payload (closing.toList ++ after)
          rw [← eq_of_cutAt hclosing, ← hstdout] at hslice
          rw [Option.map_some]
          dsimp only [Option.bind_eq_bind, Option.bind_some]
          rw [hslice, hclosing]
          rfl

/-! ### What a payload says -/

/-- What a written form says of an interpreter. Each field is given once, under its name in an
object or at its place in an array. The executable may be left out or null. The list of version
numbers begins with a 32-bit number; what does not fit at its other places is missing. -/
structure Says (w : Json.Written) (info : InterpreterInfo) : Prop where
  record : w.IsRecord fieldNames.length
  version : ∃ values major sysVersion, w.Holds "versionInfo" 0 (.arr values) ∧
    w.Holds "sysVersion" 2 (.str sysVersion) ∧
    values[0]? = some (Json.ofUInt32 major) ∧
    info.version =
      { major := some major
        minor := Version.part? values 1
        micro := Version.part? values 2
        release := (Version.levelPart? values).map fun level =>
          ⟨level, (Version.part? values 4).getD 0⟩
        sysVersion := some (Text.trim sysVersion) }
  sysPrefix : w.Holds "sysPrefix" 1 (.str info.sysPrefix.text)
  arch : ∃ is64Bit, w.Holds "is64Bit" 3 (.bool is64Bit) ∧ info.arch = .ofIs64Bit is64Bit
  executable : (w.partsFor "executable" 4 = [] ∧ info.executable = ⟨""⟩) ∨
    (w.Holds "executable" 4 .null ∧ info.executable = ⟨""⟩) ∨
      w.Holds "executable" 4 (.str info.executable.text)

section Decode

variable {v : Json} {values : List Json} {version : Version} {p : Path} {payload : List Char}
  {info : InterpreterInfo}

theorem path_ofJson?_eq_some_iff : Path.ofJson? v = some p ↔ v = .str p.text := by
  rw [Path.ofJson?, Option.map_eq_some_iff]
  constructor
  · rintro ⟨s, hs, rfl⟩
    exact Json.asString?_eq_some_iff.1 hs
  · rintro rfl
    exact ⟨p.text, rfl, rfl⟩

theorem nullable_path_eq_some_iff {found : Option Path} :
    Json.nullable Path.ofJson? v = some found ↔
      (v = .null ∧ found = none) ∨ ∃ p, v = .str p.text ∧ found = some p := by
  by_cases hv : v = .null
  · subst hv
    simp [Json.nullable, eq_comm]
  · rw [Json.nullable.eq_2 _ _ hv, Option.map_eq_some_iff]
    simp only [path_ofJson?_eq_some_iff, hv, false_and, false_or]
    exact exists_congr fun p => and_congr_right fun _ => eq_comm

theorem version_ofInfo_eq_some_iff :
    Version.ofInfo values = some version ↔ ∃ major, values[0]? = some (Json.ofUInt32 major) ∧
      version =
        { major := some major
          minor := Version.part? values 1
          micro := Version.part? values 2
          release := (Version.levelPart? values).map fun level =>
            ⟨level, (Version.part? values 4).getD 0⟩
          sysVersion := none } := by
  rw [Version.ofInfo, Option.map_eq_some_iff]
  refine exists_congr fun major => and_congr ?_ eq_comm
  rw [Version.part?, Option.bind_eq_some_iff]
  constructor
  · rintro ⟨v, hv, hmajor⟩
    rw [hv, Json.asUInt32?_eq_some_iff.1 hmajor]
  · intro h
    exact ⟨_, h, Json.asUInt32?_ofUInt32 major⟩

/-- What is read of the executable, where nothing is read as the empty path. -/
theorem executable_iff {w : Json.Written} {r : Json.Fields} (hr : w.asRecord? fieldNames = some r)
    {executable : Path} :
    (∃ found, Json.defaulted none (Json.nullable Path.ofJson?) (r.find "executable" 4) =
      some found ∧
      found.getD ⟨""⟩ = executable) ↔
    (w.partsFor "executable" 4 = [] ∧ executable = ⟨""⟩) ∨
    (w.Holds "executable" 4 .null ∧ executable = ⟨""⟩) ∨
    w.Holds "executable" 4 (.str executable.text) := by
  have hname : "executable" ∈ fieldNames := by decide
  simp only [Json.defaulted_find_iff hr hname, nullable_path_eq_some_iff]
  constructor
  · rintro ⟨found, ⟨hparts, rfl⟩ | ⟨v, hholds, ⟨rfl, rfl⟩ | ⟨p, rfl, rfl⟩⟩, rfl⟩
    · exact .inl ⟨hparts, rfl⟩
    · exact .inr (.inl ⟨hholds, rfl⟩)
    · exact .inr (.inr hholds)
  · rintro (⟨hparts, rfl⟩ | ⟨hholds, rfl⟩ | hholds)
    · exact ⟨none, .inl ⟨hparts, rfl⟩, rfl⟩
    · exact ⟨none, .inr ⟨_, hholds, .inl ⟨rfl, rfl⟩⟩, rfl⟩
    · exact ⟨some executable, .inr ⟨_, hholds, .inr ⟨executable, rfl, rfl⟩⟩, rfl⟩

theorem says_of_decode (h : decode payload = some info) :
    ∃ w, Json.readWritten? (Text.trimChars payload) = some w ∧ Says w info := by
  obtain ⟨r, hrecord, h⟩ := Option.bind_eq_some_iff.1 h
  obtain ⟨w, hw, hr⟩ := Option.bind_eq_some_iff.1 hrecord
  obtain ⟨values, hvalues, h⟩ := Option.bind_eq_some_iff.1 h
  obtain ⟨sysPrefix, hpath, h⟩ := Option.bind_eq_some_iff.1 h
  obtain ⟨sysVersion, htext, h⟩ := Option.bind_eq_some_iff.1 h
  obtain ⟨is64Bit, hbits, h⟩ := Option.bind_eq_some_iff.1 h
  obtain ⟨executable, hexec, h⟩ := Option.bind_eq_some_iff.1 h
  obtain ⟨version, hversion, h⟩ := Option.bind_eq_some_iff.1 h
  obtain rfl := Option.some_inj.1 h
  refine ⟨w, hw, (Json.Written.asRecord?_spec hr).1, ?_, ?_, ?_,
    (executable_iff hr).1 ⟨executable, hexec, rfl⟩⟩
  · obtain ⟨v, hv, hlist⟩ := (Json.required_find_iff hr (by decide)).1 hvalues
    obtain ⟨t, ht, hstr⟩ := (Json.required_find_iff hr (by decide)).1 htext
    obtain rfl := Json.asList?_some_eq_some_iff.1 hlist
    obtain rfl := Json.asString?_eq_some_iff.1 hstr
    obtain ⟨major, hmajor, rfl⟩ := version_ofInfo_eq_some_iff.1 hversion
    exact ⟨values, major, sysVersion, hv, ht, hmajor, rfl⟩
  · obtain ⟨v, hv, hstr⟩ := (Json.required_find_iff hr (by decide)).1 hpath
    exact path_ofJson?_eq_some_iff.1 hstr ▸ hv
  · obtain ⟨v, hv, hbool⟩ := (Json.required_find_iff hr (by decide)).1 hbits
    exact ⟨is64Bit, Json.asBool?_eq_some_iff.1 hbool ▸ hv, rfl⟩

theorem decode_of_says {w : Json.Written} (hw : Json.readWritten? (Text.trimChars payload) = some w)
    (h : Says w info) :
    decode payload = some info := by
  obtain ⟨values, major, sysVersion, hvalues, htext, hmajor, hversion⟩ := h.version
  obtain ⟨is64Bit, hbits, harch⟩ := h.arch
  have hexecutable : (w.partsFor "executable" 4).length ≤ 1 := by
    rcases h.executable with ⟨hnone, -⟩ | ⟨hnull, -⟩ | hsome
    · simp [hnone]
    · exact hnull.length_le
    · exact hsome.length_le
  have honce : ∀ name ∈ fieldNames, ∃ place, (w.partsFor name place).length ≤ 1 := by
    simp only [fieldNames, List.forall_mem_cons]
    exact ⟨⟨0, hvalues.length_le⟩, ⟨1, h.sysPrefix.length_le⟩, ⟨2, htext.length_le⟩,
      ⟨3, hbits.length_le⟩, ⟨4, hexecutable⟩, nofun⟩
  obtain ⟨r, hr⟩ := Json.Written.exists_asRecord? h.record honce
  obtain ⟨executable, hexec, hpath⟩ := (executable_iff hr).2 h.executable
  refine Option.bind_eq_some_iff.2 ⟨r, Option.bind_eq_some_iff.2 ⟨w, hw, hr⟩, ?_⟩
  refine Option.bind_eq_some_iff.2 ⟨values, (Json.required_find_iff hr (by decide)).2
    ⟨_, hvalues, Json.asList?_some_eq_some_iff.2 rfl⟩, ?_⟩
  refine Option.bind_eq_some_iff.2 ⟨info.sysPrefix, (Json.required_find_iff hr (by decide)).2
    ⟨_, h.sysPrefix, path_ofJson?_eq_some_iff.2 rfl⟩, ?_⟩
  refine Option.bind_eq_some_iff.2 ⟨sysVersion,
    (Json.required_find_iff hr (by decide)).2 ⟨_, htext, rfl⟩, ?_⟩
  refine Option.bind_eq_some_iff.2 ⟨is64Bit,
    (Json.required_find_iff hr (by decide)).2 ⟨_, hbits, rfl⟩, ?_⟩
  refine Option.bind_eq_some_iff.2 ⟨executable, hexec, ?_⟩
  refine Option.bind_eq_some_iff.2 ⟨_, version_ofInfo_eq_some_iff.2 ⟨major, hmajor, rfl⟩, ?_⟩
  rw [hpath, ← harch, ← hversion]

/-- **What is read is what the payload says.** -/
theorem decode_eq_some_iff :
    decode payload = some info ↔ ∃ w, Json.readWritten? (Text.trimChars payload) = some w ∧
    Says w info :=
  ⟨says_of_decode, fun ⟨_, hw, h⟩ => decode_of_says hw h⟩

end Decode

/-! ### Reports -/

theorem parse_between {before payload : String} (hbefore : ¬ opening.toList <:+: before.toList)
    (hpayload : ¬ closing.toList <:+: payload.toList) (after : String) :
    parse (before ++ opening ++ payload ++ closing ++ after) = decode payload.toList := by
  have hbetween := payload?_between hbefore hpayload after.toList
  rw [parse]
  simp only [String.toList_append, List.append_assoc]
  rw [hbetween, Option.bind_some]

theorem parse_eq_none {stdout : String}
    (h : ∀ before payload after, stdout ≠ before ++ opening ++ payload ++ closing ++ after) :
    parse stdout = none := by
  rw [parse, Option.bind_eq_none_iff]
  intro payload hpayload
  obtain ⟨before, after, hstdout⟩ := eq_of_payload? hpayload
  refine absurd (String.toList_inj.1 ?_) (h (.ofList before) (.ofList payload) (.ofList after))
  simpa using hstdout

/-- **Whatever stands around the report, it is read as what its payload says**: behind a text
without the opening mark, and between the marks a payload without the closing mark. Nothing is read
from an output without an opening mark and a closing mark after it. The search by byte offsets has
the same result for every output. -/
theorem only_payload_counts (before payload after : String)
    (hbefore : ¬ opening.toList <:+: before.toList)
    (hpayload : ¬ closing.toList <:+: payload.toList) :
    (∀ info, parse (before ++ opening ++ payload ++ closing ++ after) = some info ↔
      ∃ w, Json.readWritten? (Text.trimChars payload.toList) = some w ∧ Says w info) ∧
    (∀ stdout, (∀ a b c, stdout ≠ a ++ opening ++ b ++ closing ++ c) → parse stdout = none) ∧
    ∀ stdout, parseByOffsets? stdout.toList = some (parse stdout) := by
  refine ⟨?_, fun stdout => parse_eq_none, parseByOffsets?_eq⟩
  intro info
  rw [parse_between hbefore hpayload]
  exact decode_eq_some_iff

/-- A payload that contains a part of the closing mark. -/
def partialMark : String :=
  "\n\x7b\"sysPrefix\":\"/é<<<JSO\",\"sysVersion\":\" 3.9\"," ++
    "\"is64Bit\":true,\"versionInfo\":[3,9]\x7d\n"

/-- A part of the opening mark before the report, and both marks after it. -/
theorem only_payload_counts_noisy :
    ¬ opening.toList <:+: "é>>>JSO>>".toList ∧ ¬ closing.toList <:+: partialMark.toList ∧
    parse ("é>>>JSO>>" ++ opening ++ partialMark ++ closing ++ "<<<JSON>>>JSON") =
      some ⟨⟨""⟩, ⟨"/é<<<JSO"⟩, ⟨some 3, some 9, none, none, some "3.9"⟩, .x64⟩ := by
  have hbefore : ¬ opening.toList <:+: "é>>>JSO>>".toList := by decide
  have hpayload : ¬ closing.toList <:+: partialMark.toList := by decide +kernel
  have hdecode : decode partialMark.toList =
      some ⟨⟨""⟩, ⟨"/é<<<JSO"⟩, ⟨some 3, some 9, none, none, some "3.9"⟩, .x64⟩ := by decide +kernel
  exact ⟨hbefore, hpayload, ((only_payload_counts _ _ _ hbefore hpayload).1 _).2
    (says_of_decode hdecode)⟩

/-- A report need not be an object: an array of the fields in their order is read too. -/
theorem array_report_is_read :
    (Json.readWritten? (Text.trimChars "[[3,9],\"/opt/py\",\"3.9\",true,\"/x\"]".toList)).any
      Json.Written.isObject = false ∧
    parse ">>>JSON[[3,9],\"/opt/py\",\"3.9\",true,\"/x\"]<<<JSON" =
      some ⟨⟨"/x"⟩, ⟨"/opt/py"⟩, ⟨some 3, some 9, none, none, some "3.9"⟩, .x64⟩ := by
  decide +kernel

end EnvDiscovery.Report
