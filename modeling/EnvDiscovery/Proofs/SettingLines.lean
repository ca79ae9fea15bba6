import EnvDiscovery.Config.Reader
import EnvDiscovery.Proofs.Digits
import EnvDiscovery.Proofs.Occurrences

/-!
**A line with a key and a word.**

A text of one line, a word, a colon, a space and another word, is a mapping with one entry. The
reading takes four steps: the key, for which a place was kept; the colon, which fills the place and
opens a mapping; the word; and the end, which closes the mapping. A word of digits is read as the
number that it writes.

Main definitions:
* `Yaml.IsWord` — words of ASCII letters, digits and underscores;
* `Yaml.lineText` — a line with a key and a word;
* `Yaml.Lexer.afterKey`, `Yaml.Lexer.afterColon`, `Yaml.Lexer.afterWord` — the reading of a line,
  step by step.

Main results:
* `Yaml.scanPlain_append` — a plain scalar ends where its word does;
* `Yaml.Lexer.step_run` — a step passes what separates tokens and reads one token;
* `Yaml.parse_lineText` — **a line is read as a mapping with one entry**;
* `Yaml.natOfText?_decimal` — a number is read back from its digits.
-/

namespace EnvDiscovery.Yaml

variable {c x : Char} {w rest : List Char}

/-! ### Words -/

/-- The characters of a word: ASCII letters and digits, and underscores. -/
def isWordLetter (c : Char) : Bool :=
  c.isAlphanum || c == '_'

theorem ne_of_isWordLetter {d : Char} (hc : isWordLetter c = true) (hd : isWordLetter d = false) :
    c ≠ d := by
  rintro rfl
  rw [hc] at hd
  cases hd

theorem toNat_of_isWordLetter (hc : isWordLetter c = true) : 48 ≤ c.toNat ∧ c.toNat ≤ 122 := by
  have hdigit : c.isDigit = (decide ('0'.val ≤ c.val) && decide (c.val ≤ '9'.val)) := rfl
  have halnum : c.isAlphanum = (c.isAlpha || c.isDigit) := rfl
  have h0 : '0'.val.toNat = 48 := rfl
  have h9 : '9'.val.toNat = 57 := rfl
  have hunder : c = '_' → c.toNat = 95 := by rintro rfl; rfl
  rw [isWordLetter, Bool.or_eq_true, beq_iff_eq, halnum, Bool.or_eq_true] at hc
  rcases hc with (halpha | hnum) | hu
  · rw [← Bool.not_eq_false, Text.isAlpha_eq_false_iff] at halpha
    omega
  · simp only [hdigit, Bool.and_eq_true, decide_eq_true_eq, UInt32.le_iff_toNat_le, h0, h9,
      Char.toNat_val] at hnum
    omega
  · have := hunder hu
    omega

theorem isSpace_of_isWordLetter (hc : isWordLetter c = true) : isSpace c = false := by
  have hspace := ne_of_isWordLetter hc (d := ' ') (by decide)
  have htab := ne_of_isWordLetter hc (d := '\t') (by decide)
  simp [isSpace, hspace, htab]

theorem isBreak_of_isWordLetter (hc : isWordLetter c = true) : isBreak c = false := by
  have hline := ne_of_isWordLetter hc (d := '\n') (by decide)
  have hreturn := ne_of_isWordLetter hc (d := '\r') (by decide)
  have hrange := toNat_of_isWordLetter hc
  simp only [isBreak, Bool.or_eq_false_iff, beq_eq_false_iff_ne]
  refine ⟨⟨⟨⟨hline, hreturn⟩, ?_⟩, ?_⟩, ?_⟩ <;> omega

theorem isAllowed_of_isWordLetter (hc : isWordLetter c = true) : isAllowed c = true := by
  have hrange := toNat_of_isWordLetter hc
  have h : (0x20 ≤ c.toNat && c.toNat ≤ 0x7E) = true := by
    rw [Bool.and_eq_true, decide_eq_true_eq, decide_eq_true_eq]
    omega
  simp [isAllowed, h]

/-- A character that is not passed over between tokens. -/
structure BeginsToken (x : Char) : Prop where
  space : x ≠ ' '
  tab : x ≠ '\t'
  comment : x ≠ '#'
  lineBreak : isBreak x = false
  mark : isByteOrderMark x = false

theorem beginsToken_of_isWordLetter (hx : isWordLetter x = true) : BeginsToken x where
  space := ne_of_isWordLetter hx (by decide)
  tab := ne_of_isWordLetter hx (by decide)
  comment := ne_of_isWordLetter hx (by decide)
  lineBreak := isBreak_of_isWordLetter hx
  mark := by
    have hrange := toNat_of_isWordLetter hx
    rw [isByteOrderMark, beq_eq_false_iff_ne]
    omega

theorem beginsToken_colon : BeginsToken ':' := by
  constructor <;> decide

/-- A word: at least one letter, and nothing else. -/
structure IsWord (w : List Char) : Prop where
  nonempty : w ≠ []
  letters : ∀ c ∈ w, isWordLetter c = true

theorem IsWord.exists_cons (hw : IsWord w) : ∃ x rest, w = x :: rest ∧ isWordLetter x = true := by
  obtain ⟨x, rest, rfl⟩ := List.exists_cons_of_ne_nil hw.nonempty
  exact ⟨x, rest, rfl, hw.letters x List.mem_cons_self⟩

/-! ### Plain scalars -/

/-- Where a plain word ends: at the end of the text, or at a colon before a space. -/
def Stops (rest : List Char) : Prop :=
  rest = [] ∨ ∃ more, rest = ':' :: ' ' :: more

theorem plainWord_append (hw : ∀ c ∈ w, isWordLetter c = true) (hrest : Stops rest) (fuel : Nat)
    (hfuel : w.length ≤ fuel) (line column index : Nat) :
    plainWord false fuel ⟨w ++ rest, line, column, index⟩ =
      some (w, ⟨rest, line, column + w.length, index + w.length⟩) := by
  induction w generalizing fuel column index with
  | nil =>
      cases fuel with
      | zero => rfl
      | succ fuel =>
          rcases hrest with rfl | ⟨more, rfl⟩
          · rfl
          · rfl
  | cons c w ih =>
      obtain ⟨hc, hw⟩ := List.forall_mem_cons.1 hw
      cases fuel with
      | zero => simp at hfuel
      | succ fuel =>
          have hcolon : c ≠ ':' := ne_of_isWordLetter hc (by decide)
          have hends : plainEnds false ⟨c :: (w ++ rest), line, column, index⟩ = false := by
            simp [plainEnds, Cursor.isAt, hcolon]
          rw [List.cons_append, plainWord]
          dsimp only
          rw [isSpace_of_isWordLetter hc, isBreak_of_isWordLetter hc, hends, Cursor.skip]
          dsimp only
          rw [ih hw fuel (by simpa using hfuel)]
          simp [strayColon, Nat.add_assoc, Nat.add_comm 1]

/-- A plain scalar ends where its word does. -/
theorem scanPlain_append (hw : IsWord w) (hrest : Stops rest) (indent : Int)
    (line column index : Nat) :
    scanPlain false indent ⟨w ++ rest, line, column, index⟩ =
      some (w, ⟨rest, line, column + w.length, index + w.length⟩, false) := by
  have hplain := plainWord_append hw.letters hrest (w ++ rest).length (by simp) line column index
  obtain ⟨hne, hletters⟩ := hw
  obtain ⟨c, w, rfl⟩ := List.exists_cons_of_ne_nil hne
  have hc := hletters c List.mem_cons_self
  have hdash : c ≠ '-' := ne_of_isWordLetter hc (by decide)
  have hdot : c ≠ '.' := ne_of_isWordLetter hc (by decide)
  have hhash : c ≠ '#' := ne_of_isWordLetter hc (by decide)
  have hmark : Cursor.atDocumentMark ⟨c :: w ++ rest, line, column, index⟩ = false := by
    simp [Cursor.atDocumentMark, hdash, hdot]
  have hcomment : Cursor.isAt ⟨c :: w ++ rest, line, column, index⟩ '#' = false := by
    simp [Cursor.isAt, hhash]
  have hgap : ∀ line column index, Cursor.spaceAt ⟨rest, line, column, index⟩ 0 = false ∧
      Cursor.breakAt ⟨rest, line, column, index⟩ 0 = false := by
    intro line column index
    rcases hrest with rfl | ⟨more, rfl⟩
    · exact ⟨rfl, rfl⟩
    · exact ⟨rfl, rfl⟩
  rw [scanPlain, plainWords, hmark, hcomment, if_neg (by decide)]
  dsimp only
  rw [hplain]
  dsimp only
  rw [(hgap _ _ _).1, (hgap _ _ _).2]
  simp [Folding.none, Folding.text]

namespace Lexer

variable {α : Type} {l l' : Lexer}

/-! ### Steps of the reading -/

theorem run_bind_of {m : LexM α} {a : α} (h : m.run l = some (a, l')) {β : Type} (f : α → LexM β) :
    (m >>= f).run l = (f a).run l' := by
  rw [StateT.run_bind, h]
  rfl

theorem run_get_bind (f : Lexer → LexM α) : (get >>= f).run l = (f l).run l := rfl

/-- Blocks that are not deeper than a column stay open. -/
theorem unindentTo_run {column : Int} (h : l.indent ≤ column) :
    (unindentTo column).run l = some ((), l) := by
  have hunwind : unwind column l.indents l.indent l.output = (l.indent, l.indents, l.output) := by
    cases l.indents with
    | nil => rfl
    | cons outer rest => rw [unwind, if_neg (by omega)]
  rw [unindentTo, StateT.run_modify, hunwind]
  split <;> rfl

/-- Words that may still be keys are kept. -/
theorem dropStale_run (h : ∀ k ∈ l.keys, k.any (isStale l.cursor) = false) :
    dropStale.run l = some ((), l) := by
  have hkept : (l.keys.map fun k => if k.any (isStale l.cursor) = true then none else k) =
      l.keys := by
    refine (List.map_congr_left fun k hk => ?_).trans (List.map_id l.keys)
    rw [if_neg (Bool.eq_false_iff.1 (h k hk))]
    rfl
  have hany : (l.keys.any fun k => k.any (isStale l.cursor) && k.any (·.required)) = false := by
    rw [List.any_eq_false]
    intro k hk
    rw [h k hk]
    exact Bool.false_ne_true
  rw [dropStale, run_get_bind]
  dsimp only
  rw [hany, if_neg Bool.false_ne_true, hkept]
  rfl

theorem toNextToken_run {c : Cursor} {allowed : Bool}
    (hgaps : passGaps l.inFlow (l.cursor.rest.length + 1) l.cursor l.keyAllowed = (c, allowed)) :
    toNextToken.run l = some ((), { l with cursor := c, keyAllowed := allowed }) := by
  rw [toNextToken, StateT.run_modify, hgaps]
  rfl

/-- A step that finds a token: what separates tokens is passed, and nothing else changes before the
token is read. -/
theorem step_run {c : Cursor} {allowed : Bool}
    (hgaps : passGaps l.inFlow (l.cursor.rest.length + 1) l.cursor l.keyAllowed = (c, allowed))
    (hkeys : ∀ k ∈ l.keys, k.any (isStale c) = false) (hindent : l.indent ≤ c.column)
    (hc : c.rest = x :: rest)
    (hread : (readToken x).run { l with cursor := c, keyAllowed := allowed } = some ((), l')) :
    step.run l = some (true, l') := by
  rw [step, run_bind_of (toNextToken_run hgaps),
    run_bind_of (dropStale_run (by exact hkeys)), run_get_bind,
    run_bind_of (unindentTo_run (by exact hindent)), run_get_bind]
  dsimp only
  rw [hc]
  dsimp only
  rw [run_bind_of hread]
  rfl

/-- At the end all blocks are closed. -/
theorem step_run_end {c : Cursor} {allowed : Bool}
    (hgaps : passGaps l.inFlow (l.cursor.rest.length + 1) l.cursor l.keyAllowed = (c, allowed))
    (hkeys : l.keys = [none]) (hindent : l.indent ≤ c.column) (hc : c.rest = []) :
    step.run l = some (false, { l with
      cursor := c
      keyAllowed := allowed
      indent := (unwind (-1) l.indents l.indent l.output).1
      indents := (unwind (-1) l.indents l.indent l.output).2.1
      output := (unwind (-1) l.indents l.indent l.output).2.2 }) := by
  have hfresh : ∀ k ∈ l.keys, k.any (isStale c) = false := by simp [hkeys]
  rw [step, run_bind_of (toNextToken_run hgaps),
    run_bind_of (dropStale_run (by exact hfresh)), run_get_bind,
    run_bind_of (unindentTo_run (by exact hindent)), run_get_bind]
  dsimp only
  rw [hc]
  obtain ⟨cursor, indent, indents, keyAllowed, keys, places, filled, output⟩ := l
  subst hkeys
  rfl

/-- A plain scalar may begin with a letter. -/
theorem plainBegins_of_isWordLetter {c : Cursor} (hx : isWordLetter x = true)
    (hc : c.rest = x :: rest) (inFlow : Bool) :
    plainBegins inFlow c = true := by
  have hgap : c.gapAt 0 = false := by
    simp [Cursor.gapAt, hc, isSpace_of_isWordLetter hx, isBreak_of_isWordLetter hx]
  -- no indicator is a letter
  have hletter : ("-?:,[]#&*!|>'\"%@".toList ++ [Char.ofNat 0x7B, Char.ofNat 0x7D,
    Char.ofNat 0x60]).all
      (!isWordLetter ·) = true := by
    decide
  have hindicator : c.has
      ("-?:,[]#&*!|>'\"%@".toList ++ [Char.ofNat 0x7B, Char.ofNat 0x7D, Char.ofNat 0x60]).contains
        0 = false := by
    rw [Cursor.has, hc, List.getElem?_cons_zero, Option.any_some, List.contains_eq_any_beq,
      List.any_eq_false]
    intro d hd
    have hd' : isWordLetter d = false := by simpa using List.all_eq_true.1 hletter d hd
    rw [beq_iff_eq]
    exact ne_of_isWordLetter hx hd'
  rw [plainBegins, hgap, hindicator]
  rfl

/-- A letter begins a plain scalar. -/
theorem readToken_run_word (hflow : l.inFlow = false) (hx : isWordLetter x = true)
    (hc : l.cursor.rest = x :: rest) : (readToken x).run l = plain.run l := by
  have hne : ∀ {d : Char}, isWordLetter d = false → (x == d) = false := fun hd =>
    beq_eq_false_iff_ne.2 (ne_of_isWordLetter hx hd)
  have hrange := toNat_of_isWordLetter hx
  have hopen : (x.toNat == 0x7B) = false := by rw [beq_eq_false_iff_ne]; omega
  have hclose : (x.toNat == 0x7D) = false := by rw [beq_eq_false_iff_ne]; omega
  have hmark : l.cursor.atDocumentMark = false := by
    have hdash := ne_of_isWordLetter hx (d := '-') (by decide)
    have hdot := ne_of_isWordLetter hx (d := '.') (by decide)
    simp [Cursor.atDocumentMark, hc, hdash, hdot]
  rw [readToken, run_get_bind]
  dsimp only
  rw [hflow, hmark, hopen, hclose]
  simp only [hne (d := '%') (by decide), hne (d := '[') (by decide), hne (d := ']') (by decide),
    hne (d := ',') (by decide), hne (d := '-') (by decide), hne (d := '?') (by decide),
      hne (d := ':') (by decide),
    hne (d := '*') (by decide), hne (d := '&') (by decide), hne (d := '!') (by decide),
      hne (d := '|') (by decide),
    hne (d := '>') (by decide), hne (d := '\'') (by decide), hne (d := '"') (by decide),
      Bool.and_false, Bool.false_and,
    Bool.false_eq_true, if_false]
  rw [plainBegins_of_isWordLetter hx hc, if_pos rfl]

/-- A plain scalar is taken over as a token. -/
theorem plain_run {text : List Char} {c : Cursor} (hsave : saveKey.run l = some ((), l'))
    (hscan : scanPlain l'.inFlow l'.indent l'.cursor = some (text, c, false)) :
    plain.run l = some ((), { l' with
      cursor := c, keyAllowed := false, output :=
        .token (.scalar (String.ofList text) .plain) :: l'.output }) := by
  have hallow : (allowKey false).run l' = some ((), { l' with keyAllowed := false }) := rfl
  have hscan' : scanPlain ({ l' with keyAllowed := false } : Lexer).inFlow l'.indent l'.cursor =
      some (text, c, false) :=
    hscan
  rw [plain, run_bind_of hsave, run_bind_of hallow, run_get_bind]
  dsimp only
  rw [hscan']
  rfl

/-- Nothing is passed where a token begins, and at the end. -/
theorem passGaps_of_head {c : Cursor} (h : ∀ x, c.rest.head? = some x → BeginsToken x)
    (inFlow : Bool) (fuel : Nat) (allowed : Bool) :
    passGaps inFlow (fuel + 1) c allowed = (c, allowed) := by
  obtain ⟨rest, line, column, index⟩ := c
  cases rest with
  | nil =>
      rw [passGaps]
      simp [Cursor.has, Cursor.skipWhile, Cursor.skipBy, Cursor.skipComment, Cursor.isAt,
        Cursor.breakAt]
  | cons x rest =>
      obtain ⟨hspace, htab, hhash, hbreak, hmark⟩ := h x rfl
      rw [passGaps]
      simp [Cursor.has, Cursor.skipWhile, Cursor.skipBy, Cursor.skipComment, Cursor.isAt,
        Cursor.breakAt, hspace, htab, hhash, hbreak, hmark]

/-! ### The steps of a line -/

section Line

variable {key word : List Char}

/-- The reading of a line after its key. -/
def afterKey (key word : List Char) : Lexer where
  cursor := ⟨':' :: ' ' :: word, 0, key.length, key.length⟩
  indent := -1
  indents := []
  keyAllowed := false
  keys := [some ⟨0, 0, 0, 0, false⟩]
  places := 1
  filled := []
  output := [.token (.scalar (String.ofList key) .plain), .place 0]

/-- The reading of a line after its colon. -/
def afterColon (key word : List Char) : Lexer where
  cursor := ⟨' ' :: word, 0, key.length + 1, key.length + 1⟩
  indent := 0
  indents := [-1]
  keyAllowed := false
  keys := [none]
  places := 1
  filled := [(0, true)]
  output := [.token .value, .token (.scalar (String.ofList key) .plain), .place 0]

/-- The reading of a line after its word. -/
def afterWord (key word : List Char) : Lexer :=
  { afterColon key word with
    cursor := ⟨[], 0, key.length + 2 + word.length, key.length + 2 + word.length⟩
    output := .token (.scalar (String.ofList word) .plain) :: (afterColon key word).output }

theorem step_key (hkey : IsWord key) :
    step.run (start (key ++ ':' :: ' ' :: word)) = some (true, afterKey key word) := by
  have hstops : Stops (':' :: ' ' :: word) := .inr ⟨word, rfl⟩
  have hscan := scanPlain_append hkey hstops (-1) 0 0 0
  rw [Nat.zero_add] at hscan
  have hsave : saveKey.run (start (key ++ ':' :: ' ' :: word)) = some ((),
    { start (key ++ ':' :: ' ' :: word) with
    keys := [some ⟨0, 0, 0, 0, false⟩], places := 1, output := [.place 0] }) := rfl
  have hplain := plain_run hsave hscan
  obtain ⟨x, rest, rfl, hx⟩ := hkey.exists_cons
  have hgaps := passGaps_of_head (c := (start (x :: rest ++ ':' :: ' ' :: word)).cursor)
    (by rintro y ⟨⟩; exact beginsToken_of_isWordLetter hx) false
    (start (x :: rest ++ ':' :: ' ' :: word)).cursor.rest.length true
  refine step_run hgaps ?_ (show (-1 : Int) ≤ ((0 : Nat) : Int) by decide) rfl ?_
  · exact List.forall_mem_singleton.2 rfl
  · rw [readToken_run_word rfl hx rfl]
    exact hplain

theorem step_colon (hlength : key.length ≤ keyReach) :
    step.run (afterKey key word) = some (true, afterColon key word) := by
  have hgaps :=
    passGaps_of_head (c := (afterKey key word).cursor) (by rintro y ⟨⟩; exact beginsToken_colon)
      false (afterKey key word).cursor.rest.length false
  have hread : (readToken ':').run (afterKey key word) = valueMark.run (afterKey key word) := by
    have hmark : (afterKey key word).cursor.atDocumentMark = false := by
      simp [afterKey, Cursor.atDocumentMark]
    rw [readToken, run_get_bind]
    dsimp only
    rw [hmark]
    simp only [show (':' == '%') = false by decide, Bool.and_false, Bool.false_eq_true, if_false]
    rfl
  refine step_run hgaps ?_ (show (-1 : Int) ≤ ((key.length : Nat) : Int) by omega) rfl ?_
  · refine List.forall_mem_singleton.2 ?_
    simp [isStale, afterKey]
    omega
  · exact hread

theorem step_word (hword : IsWord word) :
    step.run (afterColon key word) = some (true, afterWord key word) := by
  have hstops : Stops [] := .inl rfl
  have hscan := scanPlain_append hword hstops 0 0 (key.length + 2) (key.length + 2)
  rw [List.append_nil] at hscan
  have hplain :=
    plain_run (l := { afterColon key word with cursor := ⟨word, 0, key.length + 2,
      key.length + 2⟩ }) rfl hscan
  obtain ⟨x, rest, rfl, hx⟩ := hword.exists_cons
  obtain ⟨hspace, htab, hhash, hbreak, -⟩ := beginsToken_of_isWordLetter hx
  have hgaps : passGaps false ((afterColon key (x :: rest)).cursor.rest.length +
    1) (afterColon key (x :: rest)).cursor
      false = (⟨x :: rest, 0, key.length + 2, key.length + 2⟩, false) := by
    rw [passGaps]
    simp [afterColon, Cursor.has, Cursor.skipWhile, Cursor.skipBy, Cursor.skip,
      Cursor.skipComment, Cursor.isAt, Cursor.breakAt, hspace, htab, hhash, hbreak]
  refine step_run hgaps ?_ (show (0 : Int) ≤ ((key.length + 2 : Nat) : Int) by omega) rfl ?_
  · exact List.forall_mem_singleton.2 rfl
  · rw [readToken_run_word rfl hx rfl]
    exact hplain

theorem step_end (key word : List Char) :
    step.run (afterWord key word) = some (false, { afterWord key word with
    indent := -1, indents := [], output := .token .blockEnd :: (afterWord key word).output }) := by
  have hgaps := passGaps_of_head (c := (afterWord key word).cursor) (by rintro y ⟨⟩) false
    (afterWord key word).cursor.rest.length false
  have hcolumn : (0 : Int) ≤ ((key.length + 2 + word.length : Nat) : Int) := by omega
  exact step_run_end hgaps rfl hcolumn rfl

theorem run_of_step {fuel : Nat} (h : step.run l = some (true, l')) :
    (run (fuel + 1)).run l = (run fuel).run l' := by
  rw [run, run_bind_of h]
  rfl

theorem run_of_step_end {fuel : Nat} (h : step.run l = some (false, l')) :
    (run (fuel + 1)).run l = some ((), l') := by
  rw [run, run_bind_of h]
  rfl

end Line

end Lexer

section Line

variable {key word : List Char}

/-- A line with a key and a word. -/
def lineText (key word : List Char) : String :=
  String.ofList (key ++ ':' :: ' ' :: word)

theorem tokens_lineText (hkey : IsWord key) (hlength : key.length ≤ Lexer.keyReach)
    (hword : IsWord word) :
    tokens (lineText key word) = some [.blockMappingStart, .key,
      .scalar (String.ofList key) .plain, .value, .scalar (String.ofList word) .plain,
      .blockEnd] := by
  have hallowed : (key ++ ':' :: ' ' :: word).all isAllowed = true := by
    simp only [List.all_append, List.all_cons, Bool.and_eq_true, List.all_eq_true]
    exact ⟨fun c hc => isAllowed_of_isWordLetter (hkey.letters c hc), by decide, by decide,
      fun c hc => isAllowed_of_isWordLetter (hword.letters c hc)⟩
  have hfuel : ∃ n, (key ++ ':' :: ' ' :: word).length + 1 = n + 4 := by
    have := List.length_pos_iff.2 hkey.nonempty
    exact ⟨key.length + word.length - 1, by simp; omega⟩
  have hrun : (Lexer.run ((key ++ ':' :: ' ' :: word).length + 1)).run
    (.start (key ++ ':' :: ' ' :: word)) =
      some ((), { Lexer.afterWord key word with
        indent := -1, indents := [], output :=
          .token .blockEnd :: (Lexer.afterWord key word).output }) := by
    obtain ⟨n, hn⟩ := hfuel
    rw [hn, Lexer.run_of_step (Lexer.step_key hkey), Lexer.run_of_step (Lexer.step_colon hlength),
      Lexer.run_of_step (Lexer.step_word hword), Lexer.run_of_step_end (Lexer.step_end key word)]
  obtain ⟨x, rest, rfl, hx⟩ := hkey.exists_cons
  have htext : (lineText (x :: rest) word).toList = x :: (rest ++ ':' :: ' ' :: word) :=
    String.toList_ofList
  have hmark : isByteOrderMark x = false := (beginsToken_of_isWordLetter hx).mark
  rw [tokens, htext]
  dsimp only
  simp only [hmark, Bool.false_eq_true, if_false]
  rw [← List.cons_append, hallowed, hrun]
  rfl

/-- **A line is read as a mapping with one entry.** -/
theorem parse_lineText (hkey : IsWord key) (hlength : key.length ≤ Lexer.keyReach)
    (hword : IsWord word) :
    Document.parse (lineText key word) = some ⟨some (.mapping none
      [(.scalar none ⟨String.ofList key, .plain, none⟩,
        .scalar none ⟨String.ofList word, .plain, none⟩)]), []⟩ := by
  have hdocument : document (lineText key word) = some (.node (.mapping none
      [(.scalar none ⟨String.ofList key, .plain, none⟩,
        .scalar none ⟨String.ofList word, .plain, none⟩)])) := by
    rw [document, tokens_lineText hkey hlength hword]
    rfl
  rw [Document.parse, hdocument]
  rfl

end Line

/-! ### Numbers -/

open Text

theorem digitIn?_ten {c : Char} (h : c.isDigit = true) :
    digitIn? 10 c = some (c.toNat - '0'.toNat) := by
  have hrange := Text.toNat_of_isDigit h
  have hzero : '0'.toNat = 48 := rfl
  rw [digitIn?, Text.hexValue?, if_pos h, Option.filter_some, if_pos]
  rw [decide_eq_true_eq]
  omega

theorem natInBase?_ten {ds : List Char} (hne : ds ≠ []) (hds : ∀ c ∈ ds, c.isDigit = true) :
    natInBase? 10 ds = some (valueOfDigits ds) := by
  have hfold : ∀ (ds : List Char) (n : Nat), (∀ c ∈ ds, c.isDigit = true) →
      ds.foldl (fun n c => do return (← n) * 10 + (← digitIn? 10 c)) (some n) =
        some (Nat.ofDigitChars 10 ds n) := by
    intro ds
    induction ds with
    | nil => exact fun n _ => by simp
    | cons c ds ih =>
        intro n h
        obtain ⟨hc, hds⟩ := List.forall_mem_cons.1 h
        rw [List.foldl_cons, Nat.ofDigitChars_cons, ← ih _ hds, digitIn?_ten hc, Nat.mul_comm 10 n]
        rfl
  obtain ⟨c, ds, rfl⟩ := List.exists_cons_of_ne_nil hne
  exact hfold (c :: ds) 0 hds

/-- A number is read back from its digits. -/
theorem natOfText?_decimal (n : Nat) : natOfText? (Text.decimal n) = some n := by
  have hdigits : ∀ c ∈ decimalChars n, c.isDigit = true := fun c hc => isDigit_decimalChars hc
  have hread : natInBase? 10 (decimalChars n) = some n := by
    rw [natInBase?_ten (decimalChars_ne_nil n) hdigits, valueOfDigits_decimalChars]
  have hzero := decimalChars_no_leading_zero n
  obtain ⟨d, ds, hds⟩ := List.exists_cons_of_ne_nil (decimalChars_ne_nil n)
  have htext : (Text.decimal n).toList = d :: ds := by rw [Text.decimal, String.toList_ofList, hds]
  rw [hds] at hdigits hread hzero
  have hd := hdigits d List.mem_cons_self
  have hplus : d ≠ '+' := isDigit_ne hd (by decide)
  have hsign : ∀ cs, d :: ds ≠ '+' :: cs := fun cs h => hplus (List.head_eq_of_cons_eq h)
  -- a zero that is not alone does not come first, so no base is marked
  have hunmarked : ∀ c cs, d :: ds ≠ '0' :: c :: cs := by
    rintro c cs ⟨⟩
    simp at hzero
  unfold natOfText?
  simp only [htext]
  split
  case h_1 heq => exact absurd heq (hunmarked _ _)
  case h_2 heq => exact absurd heq (hunmarked _ _)
  case h_3 heq => exact absurd heq (hunmarked _ _)
  case h_4 heq => exact absurd heq (hunmarked _ _)
  case h_5 => exact hread
end EnvDiscovery.Yaml
