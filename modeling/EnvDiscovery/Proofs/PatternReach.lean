import EnvDiscovery.Glob.Match
import EnvDiscovery.Proofs.FileIdentity
import EnvDiscovery.Proofs.MarkedReports
import EnvDiscovery.Proofs.Occurrences

/-!
**How many slashes a pattern can pass.**

Two stars and written slashes aside, a pattern passes a slash only by a class of bytes that has it.
So the slashes of a text that is matched are at most as many as such classes stand on the way
through the pattern. What a pattern has of stars, slashes and classes can be seen in its text.

Main definitions:
* `Glob.leavesOf` — the tokens of a pattern, those inside braces among them;
* `Glob.reachOf` — how many slashes a pattern can pass by classes;
* `Glob.Token.IsFlat` — tokens that pass a slash by a class at most;
* `Glob.Token.StemsFrom`, `Glob.State.StemsFrom` — what tokens say of the text that they are read
  from.

Main results:
* `Text.bytes_eq_utf8`, `Glob.count_slash_utf8` — slashes among bytes are slashes among characters;
* `Glob.count_slash_le`, `Glob.count_le_of_matchesBytes` — **a pattern passes no more slashes than
  its reach**;
* `Glob.readTokens_stemsFrom`, `Glob.parse_stemsFrom` — **every token stems from the text of the
  pattern**;
* `Glob.reachOf_eq_zero` — what reaches nowhere.
-/

namespace EnvDiscovery

/-! ### Slashes among bytes -/

namespace Text

theorem bytes_eq_utf8 (s : String) : bytes s = Report.utf8 s.toList := by
  have hencode : s.toUTF8 = s.toList.utf8Encode := String.utf8Encode_toList.symm
  rw [bytes, ByteArray.toList, toList_loop, hencode, List.reverse_nil, List.nil_append,
    List.drop_zero, List.utf8Encode, List.data_toByteArray]
  rfl

end Text

namespace Glob

theorem count_slash_utf8EncodeChar (c : Char) :
    (String.utf8EncodeChar c).count slash = if c == '/' then 1 else 0 := by
  have hslash : '/'.toNat = 47 ∧ slash.toNat = 47 := ⟨rfl, rfl⟩
  rcases Report.utf8EncodeChar_cases c with ⟨hascii, hone⟩ | ⟨hlarge, b, bs, hmany, hbytes⟩
  · have hsame : (UInt8.ofNat c.toNat == slash) = (c == '/') := by
      rw [Bool.eq_iff_iff, beq_iff_eq, beq_iff_eq, ← UInt8.toNat_inj, ← Char.toNat_inj,
        UInt8.toNat_ofNat']
      omega
    rw [hone, List.count_singleton, hsame]
  · have hother : (c == '/') = false := beq_false_of_ne (by rintro rfl; omega)
    rw [hother, hmany]
    refine List.count_eq_zero.2 fun hmem => ?_
    have := hbytes slash hmem
    omega

/-- Slashes among the bytes of a text are its slashes. -/
theorem count_slash_utf8 (cs : List Char) : (Report.utf8 cs).count slash = cs.count '/' := by
  induction cs with
  | nil => rfl
  | cons c cs ih =>
      rw [Report.utf8_cons, List.count_append, ih, List.count_cons,
        count_slash_utf8EncodeChar, Nat.add_comm]

theorem charBytes_eq (c : Char) : charBytes c = Report.utf8 [c] := by
  rw [charBytes, Text.bytes_eq_utf8, Char.toString_eq_singleton, String.toList_singleton]

/-! ### The leaves of tokens -/

mutual

/-- A token, or what stands inside it if it is a pair of braces, down to tokens that are none. -/
def Token.leaves : Token → List Token
  | .either branches => leavesOfAny branches
  | t => [t]

/-- The leaves of a list of tokens. -/
def leavesOf : List Token → List Token
  | [] => []
  | t :: rest => t.leaves ++ leavesOf rest

/-- The leaves of branches. -/
def leavesOfAny : List (List Token) → List Token
  | [] => []
  | b :: rest => leavesOf b ++ leavesOfAny rest

end

mutual

/-- How many slashes a token can pass by classes. -/
def Token.reach : Token → Nat
  | .oneOf negated ranges => if inClass negated ranges slash then 1 else 0
  | .either branches => reachOfAny branches
  | _ => 0

/-- How many slashes a list of tokens can pass by classes. -/
def reachOf : List Token → Nat
  | [] => 0
  | t :: rest => t.reach + reachOf rest

/-- How many slashes the branches can pass by classes, at most. -/
def reachOfAny : List (List Token) → Nat
  | [] => 0
  | b :: rest => max (reachOf b) (reachOfAny rest)

end

/-- A token that passes a slash by a class only. -/
def Token.IsFlat : Token → Prop
  | .literal c => c ≠ '/'
  | .anyDirs | .belowDir | .throughDirs => False
  | _ => True

theorem count_of_mem_afterSome {bs rest : List UInt8} (h : rest ∈ afterSome (· != slash) bs) :
    bs.count slash = rest.count slash := by
  induction bs with
  | nil =>
      obtain rfl := List.mem_singleton.1 h
      rfl
  | cons b bs ih =>
      rcases List.mem_cons.1 h with rfl | h
      · rfl
      · split at h
        case isTrue hb => rw [List.count_cons_of_ne (by simpa using hb), ih h]
        case isFalse => cases h

-- Every byte that a flat token passes is no slash, unless a class admits it. The three statements
-- follow the three functions that say what is left, and the branches of braces are bounded by the
-- largest of them.
mutual

/-- A flat token passes no more slashes than its reach. -/
theorem Token.count_slash_le : ∀ (t : Token) {bs rest : List UInt8}, (∀ u ∈ t.leaves, u.IsFlat) →
    rest ∈ t.rests bs →
    bs.count slash ≤ rest.count slash + t.reach
  | .literal c, bs, rest, hflat, h => by
      have hc : c ≠ '/' := hflat (.literal c) List.mem_cons_self
      rw [Token.rests, Option.mem_toList, Text.afterStart?_eq_some_iff] at h
      rw [h, List.count_append, charBytes_eq, count_slash_utf8,
        List.count_eq_zero.2 (by simpa using hc.symm), Nat.zero_add]
      exact Nat.le_add_right _ _
  | .anyByte, [], _, _, h => by
      rw [Token.rests] at h
      cases h
  | .anyByte, b :: bs, rest, _, h => by
      rw [Token.rests] at h
      split at h
      case isTrue => cases h
      case isFalse hb =>
        obtain rfl := List.mem_singleton.1 h
        rw [List.count_cons_of_ne (by simpa using hb)]
        exact Nat.le_add_right _ _
  | .anyName, bs, rest, _, h => by
      rw [Token.rests] at h
      exact (count_of_mem_afterSome h).le
  | .anyDirs, _, _, hflat, _ => absurd (hflat .anyDirs List.mem_cons_self) id
  | .belowDir, _, _, hflat, _ => absurd (hflat .belowDir List.mem_cons_self) id
  | .throughDirs, _, _, hflat, _ => absurd (hflat .throughDirs List.mem_cons_self) id
  | .oneOf negated ranges, [], _, _, h => by
      rw [Token.rests] at h
      cases h
  | .oneOf negated ranges, b :: bs, rest, _, h => by
      rw [Token.rests] at h
      rw [Token.reach]
      split at h
      case isTrue hb =>
        obtain rfl := List.mem_singleton.1 h
        by_cases hslash : b = slash
        · rw [hslash] at hb ⊢
          rw [List.count_cons_self, if_pos hb]
        · rw [List.count_cons_of_ne hslash]
          exact Nat.le_add_right _ _
      case isFalse => cases h
  | .either branches, bs, rest, hflat, h => by
      rw [Token.leaves] at hflat
      rw [Token.rests] at h
      rw [Token.reach]
      split at h
      case isTrue =>
        obtain rfl := List.mem_singleton.1 h
        exact Nat.le_add_right _ _
      case isFalse => exact count_slash_le_any branches hflat h

/-- Flat tokens pass no more slashes than their reach. -/
theorem count_slash_le : ∀ (ts : List Token) {bs rest : List UInt8}, (∀ u ∈ leavesOf ts, u.IsFlat) →
    rest ∈ restsOf ts bs → bs.count slash ≤ rest.count slash + reachOf ts
  | [], bs, rest, _, h => by
      rw [restsOf] at h
      obtain rfl := List.mem_singleton.1 h
      exact Nat.le_add_right _ _
  | t :: ts, bs, rest, hflat, h => by
      rw [leavesOf] at hflat
      obtain ⟨ht, hts⟩ := List.forall_mem_append.1 hflat
      rw [restsOf, List.mem_eraseDups, List.mem_flatMap] at h
      obtain ⟨mid, hmid, hrest⟩ := h
      have hfirst := Token.count_slash_le t ht hmid
      have hsecond := count_slash_le ts hts hrest
      rw [reachOf]
      omega

theorem count_slash_le_any : ∀ (branches : List (List Token)) {bs rest : List UInt8},
    (∀ u ∈ leavesOfAny branches, u.IsFlat) → rest ∈ restsOfAny branches bs →
    bs.count slash ≤ rest.count slash + reachOfAny branches
  | [], bs, rest, _, h => by
      rw [restsOfAny] at h
      cases h
  | b :: branches, bs, rest, hflat, h => by
      rw [leavesOfAny] at hflat
      obtain ⟨hb, hbranches⟩ := List.forall_mem_append.1 hflat
      rw [reachOfAny]
      rw [restsOfAny, List.mem_append] at h
      rcases h with h | h
      · split at h
        case isTrue => cases h
        case isFalse =>
          have := count_slash_le b hb h
          omega
      · have := count_slash_le_any branches hbranches h
        omega

end

/-! ### Tokens and the text of a pattern -/

/-- What a token says of the text of its pattern. -/
def Token.StemsFrom (text : List Char) : Token → Prop
  | .literal c => c ∈ text
  | .anyDirs | .belowDir | .throughDirs => ['*', '*'] <:+: text
  | .oneOf _ _ => '[' ∈ text
  | _ => True

theorem mem_leavesOf {t : Token} {ts : List Token} : t ∈ leavesOf ts ↔ ∃ u ∈ ts, t ∈ u.leaves := by
  induction ts with
  | nil => simp [leavesOf]
  | cons u ts ih => simp [leavesOf, ih]

theorem mem_leavesOfAny {t : Token} {branches : List (List Token)} :
    t ∈ leavesOfAny branches ↔ ∃ b ∈ branches, t ∈ leavesOf b := by
  induction branches with
  | nil => simp [leavesOfAny]
  | cons b branches ih => simp [leavesOfAny, ih]

theorem mem_leavesOf_reverse {t : Token} {ts : List Token} :
    t ∈ leavesOf ts.reverse ↔ t ∈ leavesOf ts := by
  simp [mem_leavesOf]

theorem mem_leavesOf_append {t : Token} {ts us : List Token} :
    t ∈ leavesOf (ts ++ us) ↔ t ∈ leavesOf ts ∨ t ∈ leavesOf us := by
  simp [mem_leavesOf, or_and_right, exists_or]

theorem mem_leavesOfAny_concat {t : Token} {branches : List (List Token)} {b : List Token} :
    t ∈ leavesOfAny (branches ++ [b]) ↔ t ∈ leavesOfAny branches ∨ t ∈ leavesOf b := by
  simp [mem_leavesOfAny, or_and_right, exists_or]

/-- The leaves of all that stands in a frame. -/
def Frame.leaves (f : Frame) : List Token :=
  leavesOfAny f.done ++ leavesOf f.current

theorem Frame.mem_leaves {f : Frame} {t : Token} :
    t ∈ f.leaves ↔ t ∈ leavesOfAny f.done ∨ t ∈ leavesOf f.current :=
  List.mem_append

namespace State

variable {s s' : State} {t u : Token} {ts : List Token}

/-- The leaves of all that is read so far. -/
def leaves (s : State) : List Token :=
  (s.inner :: s.outer).flatMap Frame.leaves

theorem mem_leaves : t ∈ s.leaves ↔ t ∈ s.inner.leaves ∨ ∃ f ∈ s.outer, t ∈ f.leaves := by
  simp [leaves]

theorem mem_leaves_push : t ∈ (s.push ts).leaves ↔ t ∈ leavesOf ts ∨ t ∈ s.leaves := by
  simp only [mem_leaves, push, Frame.mem_leaves, mem_leavesOf_append, mem_leavesOf_reverse]
  grind

theorem mem_leaves_crossDirs (h : t ∈ (s.crossDirs u).leaves) : t ∈ u.leaves ∨ t ∈ s.leaves := by
  unfold crossDirs at h
  split at h
  · exact .inr h
  · exact .inr h
  · rename_i rest _ _ hcurrent
    simp only [mem_leaves, Frame.mem_leaves, hcurrent, leavesOf, List.mem_append] at h ⊢
    grind
  · rcases mem_leaves_push.1 h with h | h
    · exact .inl (by simpa [leavesOf] using h)
    · exact .inr h

/-- Two stars become stars, or a token that crosses slashes. -/
theorem pushStars_spec {cs rest : List Char} (h : s.pushStars cs = (s', rest)) :
    rest <:+ cs ∧ ∀ t ∈ s'.leaves, t ∈ [.anyName, .anyDirs, .belowDir, .throughDirs] ∨
    t ∈ s.leaves := by
  have hpush : ∀ ts, (∀ t ∈ leavesOf ts, t ∈ [.anyName, .anyDirs, .belowDir, .throughDirs]) →
      ∀ t ∈ (s.push ts).leaves, t ∈ [.anyName, .anyDirs, .belowDir, .throughDirs] ∨ t ∈ s.leaves :=
    fun ts hts t ht => (mem_leaves_push.1 ht).imp_left (hts t)
  have hplain := hpush [.anyName, .anyName] (by simp [leavesOf, Token.leaves])
  have hdirs := hpush [.anyDirs] (by simp [leavesOf, Token.leaves])
  have hcross : ∀ u, (∀ t ∈ u.leaves, t ∈ [.anyName, .anyDirs, .belowDir, .throughDirs]) →
      ∀ t ∈ (s.crossDirs u).leaves, t ∈ [.anyName, .anyDirs, .belowDir, .throughDirs] ∨
        t ∈ s.leaves :=
    fun u hu t ht => (mem_leaves_crossDirs ht).imp_left (hu t)
  have hbelow := hcross .belowDir (by simp [Token.leaves])
  have hthrough := hcross .throughDirs (by simp [Token.leaves])
  unfold pushStars at h
  dsimp only at h
  split at h
  case isTrue =>
    split at h <;> cases h
    · exact ⟨List.suffix_refl _, hdirs⟩
    · exact ⟨List.suffix_cons _ _, hdirs⟩
    · exact ⟨List.suffix_refl _, hplain⟩
  case isFalse =>
    split at h
    case isTrue =>
      cases h
      exact ⟨List.suffix_refl _, hplain⟩
    case isFalse =>
      split at h
      case h_1 =>
        cases h
        exact ⟨List.suffix_refl _, hbelow⟩
      case h_2 =>
        cases h
        exact ⟨List.suffix_cons _ _, hthrough⟩
      case h_3 =>
        split at h <;> cases h
        · exact ⟨List.suffix_refl _, hbelow⟩
        · exact ⟨List.suffix_refl _, hplain⟩

/-- What stood in braces stands in the token for them. -/
theorem mem_leaves_close (h : s.close = .ok s') (ht : t ∈ s'.leaves) : t ∈ s.leaves := by
  unfold close at h
  split at h
  case h_1 => cases h
  case h_2 frame outer houter =>
    cases h
    simp only [mem_leaves, Frame.mem_leaves, leavesOf, Token.leaves, mem_leavesOfAny_concat,
      mem_leavesOf_reverse, List.mem_append, houter] at ht ⊢
    grind

/-- What is read so far stems from a text. -/
def StemsFrom (text : List Char) (s : State) : Prop :=
  ∀ t ∈ s.leaves, t.StemsFrom text

theorem StemsFrom.push {text : List Char} (hs : s.StemsFrom text)
    (h : ∀ t ∈ leavesOf ts, t.StemsFrom text) :
    (s.push ts).StemsFrom text := by
  intro t ht
  rcases mem_leaves_push.1 ht with ht | ht
  · exact h t ht
  · exact hs t ht

end State

theorem readRanges_suffix {s : ClassState} {cs rest : List Char} {rs : List (Char × Char)}
    (h : readRanges s cs = .ok (rs, rest)) : rest <:+ cs := by
  fun_induction readRanges s cs with
  | case1 => cases h
  | case2 s c cs hclose =>
      cases h
      exact List.suffix_cons c _
  | case3 => cases h
  | case4 s c cs hopen s' hadd ih => exact (ih h).trans (List.suffix_cons c cs)

theorem readClass_spec {cs rest : List Char} {t : Token} (h : readClass cs = .ok (t, rest)) :
    rest <:+ cs ∧ ∃ negated ranges, t = .oneOf negated ranges := by
  have hread : ∀ {negated : Bool} {cs' : List Char}, cs' <:+ cs →
      (readRanges ⟨[], false⟩ cs').map (fun x => (Token.oneOf negated x.1, x.2)) = .ok (t, rest) →
      rest <:+ cs ∧ ∃ negated ranges, t = .oneOf negated ranges := by
    intro negated cs' hsuffix hmap
    cases hranges : readRanges ⟨[], false⟩ cs' with
    | error => rw [hranges] at hmap; cases hmap
    | ok x =>
        rw [hranges] at hmap
        cases hmap
        exact ⟨(readRanges_suffix hranges).trans hsuffix, _, _, rfl⟩
  unfold readClass at h
  split at h
  · exact hread (List.suffix_cons _ _) h
  · exact hread (List.suffix_cons _ _) h
  · exact hread (List.suffix_refl _) h

/-- **Every token stems from the text that is read.** -/
theorem readTokens_stemsFrom {text : List Char} {fuel : Nat} {s s' : State} {cs : List Char}
    (h : readTokens fuel s cs = .ok s') (hcs : cs <:+ text) (hs : s.StemsFrom text) :
    s'.StemsFrom text := by
  fun_induction readTokens fuel s cs with
  | case1 | case2 =>
      cases h
      exact hs
  | case3 fuel s cs ih =>
      exact ih h ((List.suffix_cons _ _).trans hcs)
        (hs.push (by simp [leavesOf, Token.leaves, Token.StemsFrom]))
  | case4 fuel s cs s'' rest hstars prev ih =>
      obtain ⟨hrest, hleaves⟩ := State.pushStars_spec hstars
      have hcross : ['*', '*'] <:+: text :=
        (List.prefix_append ['*', '*'] cs).isInfix.trans hcs.isInfix
      have hcs' : cs <:+ text := (List.suffix_append ['*', '*'] cs).trans hcs
      refine ih h (hrest.trans hcs') fun t ht => ?_
      rcases hleaves t ht with ht | ht
      · simp only [List.mem_cons, List.not_mem_nil, or_false] at ht
        rcases ht with rfl | rfl | rfl | rfl
        · trivial
        all_goals exact hcross
      · exact hs t ht
  | case5 fuel s cs hstar ih =>
      exact ih h ((List.suffix_cons _ _).trans hcs)
        (hs.push (by simp [leavesOf, Token.leaves, Token.StemsFrom]))
  | case7 fuel s cs t rest hclass ih =>
      obtain ⟨hrest, negated, ranges, rfl⟩ := readClass_spec hclass
      refine ih h (hrest.trans ((List.suffix_cons _ _).trans hcs)) (hs.push ?_)
      have hbracket : '[' ∈ text := hcs.subset List.mem_cons_self
      simpa [leavesOf, Token.leaves, Token.StemsFrom] using hbracket
  | case8 fuel s cs ih =>
      refine ih h ((List.suffix_cons _ _).trans hcs) fun t ht => hs t ?_
      simpa [State.leaves, Frame.leaves, leavesOfAny, leavesOf] using ht
  | case10 fuel s cs s'' hclose ih =>
      exact ih h ((List.suffix_cons _ _).trans hcs) fun t ht =>
        hs t (State.mem_leaves_close hclose ht)
  | case11 fuel s cs hbraces inner ih =>
      refine ih h ((List.suffix_cons _ _).trans hcs) fun t ht => hs t ?_
      simpa only [State.mem_leaves, Frame.mem_leaves, inner, mem_leavesOfAny_concat,
        mem_leavesOf_reverse, leavesOf, List.not_mem_nil, or_false] using ht
  | case12 fuel s cs hbraces ih =>
      have hmem : ',' ∈ text := hcs.subset List.mem_cons_self
      refine ih h ((List.suffix_cons _ _).trans hcs) (hs.push ?_)
      simpa [leavesOf, Token.leaves, Token.StemsFrom] using hmem
  | case14 fuel s c cs ih =>
      have hmem : c ∈ text := hcs.subset (List.mem_cons_of_mem _ List.mem_cons_self)
      refine ih h ((List.suffix_append ['\\', c] cs).trans hcs) (hs.push ?_)
      simpa [leavesOf, Token.leaves, Token.StemsFrom] using hmem
  | case15 fuel s cs c _ _ _ _ _ _ _ ih =>
      have hmem : c ∈ text := hcs.subset List.mem_cons_self
      refine ih h ((List.suffix_cons _ _).trans hcs) (hs.push ?_)
      simpa [leavesOf, Token.leaves, Token.StemsFrom] using hmem
  | case6 | case9 | case13 => cases h

/-- The tokens of a pattern stem from its text. -/
theorem parse_stemsFrom {pattern : String} {ts : List Token} (h : parse pattern = .ok ts) :
    ∀ t ∈ leavesOf ts, t.StemsFrom pattern.toList := by
  unfold parse at h
  dsimp only at h
  split at h
  case h_1 => cases h
  case h_2 s hread =>
    split at h
    case isTrue => cases h
    case isFalse =>
      cases h
      intro t ht
      refine readTokens_stemsFrom hread (List.suffix_refl _)
        (by simp [State.StemsFrom, State.leaves, Frame.leaves, leavesOfAny, leavesOf]) t ?_
      rw [State.mem_leaves, Frame.mem_leaves]
      exact .inl (.inr (mem_leavesOf_reverse.1 ht))

theorem Token.StemsFrom.isFlat {text : List Char} {t : Token} (h : t.StemsFrom text)
    (hslash : '/' ∉ text) (hstars : ¬['*', '*'] <:+: text) : t.IsFlat := by
  cases t with
  | literal c =>
      rintro rfl
      exact hslash h
  | anyDirs | belowDir | throughDirs => exact hstars h
  | anyByte | anyName | oneOf | either => trivial

/-- A text that is matched has as many slashes as classes pass. -/
theorem count_le_of_matchesBytes {ts : List Token} {bs : List UInt8}
    (hflat : ∀ u ∈ leavesOf ts, u.IsFlat) (h : matchesBytes ts bs = true) :
    bs.count slash ≤ reachOf ts := by
  unfold matchesBytes at h
  split at h
  case h_1 => exact absurd (hflat .anyDirs (by simp [leavesOf, Token.leaves])) id
  case h_2 =>
    obtain ⟨rest, hrest, hempty⟩ := List.any_eq_true.1 h
    obtain rfl := List.isEmpty_iff.1 hempty
    simpa using count_slash_le ts hflat hrest

/-- Whether a token is a class that admits a slash. -/
def Token.passesSlash : Token → Bool
  | .oneOf negated ranges => inClass negated ranges slash
  | _ => false

mutual

theorem Token.reach_eq_zero : ∀ t : Token, (∀ u ∈ t.leaves, u.passesSlash = false) → t.reach = 0
  | .either branches, h => by
      rw [Token.leaves] at h
      rw [Token.reach]
      exact reachOfAny_eq_zero branches h
  | .oneOf negated ranges, h => by
      have hclass : inClass negated ranges slash = false :=
        h (.oneOf negated ranges) List.mem_cons_self
      rw [Token.reach, hclass]
      rfl
  | .literal _, _ | .anyByte, _ | .anyName, _ | .anyDirs, _ | .belowDir, _ | .throughDirs, _ => rfl

theorem reachOf_eq_zero : ∀ ts : List Token, (∀ u ∈ leavesOf ts, u.passesSlash = false) →
    reachOf ts = 0
  | [], _ => rfl
  | t :: ts, h => by
      rw [leavesOf] at h
      obtain ⟨ht, hts⟩ := List.forall_mem_append.1 h
      rw [reachOf, Token.reach_eq_zero t ht, reachOf_eq_zero ts hts]

theorem reachOfAny_eq_zero :
    ∀ branches : List (List Token), (∀ u ∈ leavesOfAny branches, u.passesSlash = false) →
    reachOfAny branches = 0
  | [], _ => rfl
  | b :: branches, h => by
      rw [leavesOfAny] at h
      obtain ⟨hb, hbranches⟩ := List.forall_mem_append.1 h
      rw [reachOfAny, reachOf_eq_zero b hb, reachOfAny_eq_zero branches hbranches, Nat.max_self]

end

end Glob

end EnvDiscovery
