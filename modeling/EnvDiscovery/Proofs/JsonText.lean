import EnvDiscovery.Json.Printer
import EnvDiscovery.Json.Text
import EnvDiscovery.Proofs.Digits

/-!
**What is written as JSON is read back.**

A value without doubles is written so that reading its text gives the same value. The argument
follows the two phases of reading: the text is read as a written form, and evaluating that form
gives the value. One predicate speaks of both, so that each kind of value needs one lemma; the
reader's fuel is paid for by the length of the text.

Main definitions:
* `Json.Exact` — values whose text says all about them;
* `Json.Reads` — the text of a value is read as a form with that value, whatever closes it.

Main results:
* `Json.readPieces_quote`, `Json.stringOf?_piecesOf` — strings;
* `Json.readNumeral_decimal`, `Json.eval?_numeralOf` — integers;
* `Json.readItems_joined`, `Json.readFields_joined` — lists and records;
* `Json.parse?_render` — **reading undoes writing**.
-/

namespace EnvDiscovery.Json

open Text (HeadNot)

/-! ### Strings -/

/-- The piece as which a character is written. -/
def pieceOf (c : Char) : Piece :=
  if c.toNat < 0x20 ∧ c ∉ ['\x08', '\x0C', '\n', '\r', '\t'] then .unit c.toNat else .char c

/-- The pieces as which a string is written. -/
def piecesOf (s : String) : List Piece :=
  s.toList.map pieceOf

theorem fourHex_control {n : Nat} (h : n < 0x20) :
    fourHex '0' '0' (Text.hexDigit (n / 16)) (Text.hexDigit n) = some n := by
  have hall : ∀ n < 0x20, fourHex '0' '0' (Text.hexDigit (n / 16)) (Text.hexDigit n) = some n := by
    decide
  exact hall n h

/-- Reading one character as it is written gives its piece. -/
theorem readPieces_quoteChar (acc : List Piece) (c : Char) (rest : List Char) :
    readPieces acc (quoteChar c ++ rest) = readPieces (pieceOf c :: acc) rest := by
  unfold quoteChar
  split
  -- a character without an escape of its own is a code unit below 32 or stands for itself
  case h_8 _ hquote hslash hb hf hn hr ht =>
    by_cases hc : c.toNat < 0x20
    · have hpiece : pieceOf c = .unit c.toNat := if_pos ⟨hc, by simpa using ⟨hb, hf, hn, hr, ht⟩⟩
      rw [if_pos hc, hpiece]
      simp only [List.cons_append, List.nil_append, readPieces, fourHex_control hc]
    · have hpiece : pieceOf c = .char c := if_neg (fun h => hc h.1)
      have hplain : (c.toNat < 0x20 || c == '\\') = false := by
        simpa using ⟨Nat.le_of_not_lt hc, hslash⟩
      rw [if_neg hc, hpiece, List.singleton_append, readPieces]
      · rw [hplain, if_neg Bool.false_ne_true]
      · exact hquote
      · intro _ _ _ _ _ h
        exact absurd h hslash
      · intro _ _ h
        exact absurd h hslash
  all_goals rfl

theorem readPieces_chars (acc : List Piece) (cs rest : List Char) :
    readPieces acc (cs.flatMap quoteChar ++ '"' :: rest) =
      some (acc.reverse ++ cs.map pieceOf, rest) := by
  induction cs generalizing acc with
  | nil => simp [readPieces]
  | cons c cs ih =>
      rw [List.flatMap_cons, List.append_assoc, readPieces_quoteChar, ih]
      simp

theorem toList_quote (s : String) :
    (quote s).toList = '"' :: (s.toList.flatMap quoteChar ++ ['"']) := by
  simp [quote]

/-- Reading a quoted string after its opening quote gives its pieces. -/
theorem readPieces_quote (s : String) (rest : List Char) :
    readPieces [] (s.toList.flatMap quoteChar ++ '"' :: rest) = some (piecesOf s, rest) := by
  rw [readPieces_chars, List.reverse_nil, List.nil_append, piecesOf]

theorem charsOf?_unit {n : Nat} (h : n < 0xD800) (ps : List Piece) :
    charsOf? (.unit n :: ps) = (charsOf? ps).map (Char.ofNat n :: ·) := by
  have hnone : ¬ (0xD800 ≤ n ∧ n < 0xE000) := by omega
  have hhigh : ¬ (0xD800 ≤ n ∧ n < 0xDC00) := by omega
  have hlow : ¬ (0xDC00 ≤ n ∧ n < 0xE000) := by omega
  cases ps with
  | nil => simp only [charsOf?, if_neg hnone]
  | cons p ps =>
      cases p with
      | char c => simp only [charsOf?, if_neg hnone]
      | unit m => rw [charsOf?, if_neg hhigh, if_neg hlow]

theorem charsOf?_pieceOf (c : Char) (ps : List Piece) :
    charsOf? (pieceOf c :: ps) = (charsOf? ps).map (c :: ·) := by
  rw [pieceOf]
  split
  case isTrue h => rw [charsOf?_unit (by omega), Char.ofNat_toNat]
  case isFalse h => rw [charsOf?]

/-- The pieces of a string have its characters. -/
@[simp] theorem stringOf?_piecesOf (s : String) : stringOf? (piecesOf s) = some s := by
  have hchars : ∀ cs : List Char, charsOf? (cs.map pieceOf) = some cs := by
    intro cs
    induction cs with
    | nil => rfl
    | cons c cs ih => rw [List.map_cons, charsOf?_pieceOf, ih, Option.map_some]
  simp [stringOf?, piecesOf, hchars]

/-! ### Integers -/

/-- What may stand behind a value: nothing, or a mark of the list or record it belongs to. -/
def Closed (rest : List Char) : Prop :=
  ∀ c ∈ rest.head?, c ∈ [',', ']', '}']

@[simp] theorem closed_nil : Closed [] := by simp [Closed]

@[simp] theorem closed_cons {c : Char} {cs : List Char} :
    Closed (c :: cs) ↔ c ∈ [',', ']', '}'] := by
  simp [Closed]

/-- What may stand behind a value does not begin with a character of a class without the three
marks. -/
theorem Closed.headNot {rest : List Char} (h : Closed rest) {p : Char → Bool}
    (hcomma : p ',' = false) (hbracket : p ']' = false) (hbrace : p '}' = false) :
    HeadNot p rest := by
  intro c hc
  have hmark := h c hc
  simp only [List.mem_cons, List.not_mem_nil, or_false] at hmark
  rcases hmark with rfl | rfl | rfl
  · exact hcomma
  · exact hbracket
  · exact hbrace

theorem readDigits_append {ds rest : List Char} (hds : ∀ c ∈ ds, c.isDigit = true) (hne : ds ≠ [])
    (hrest : HeadNot Char.isDigit rest) : readDigits (ds ++ rest) = some (ds, rest) := by
  rw [readDigits, Text.takeWhile_append hds hrest, Text.dropWhile_append hds hrest]
  cases ds with
  | nil => exact absurd rfl hne
  | cons d ds => rfl

theorem readFraction_closed {rest : List Char} (h : Closed rest) :
    readFraction rest = some (none, rest) := by
  rw [readFraction]
  rintro cs rfl
  simp at h

theorem readExponent_closed {rest : List Char} (h : Closed rest) :
    readExponent rest = some (none, rest) := by
  cases rest with
  | nil => rfl
  | cons c cs =>
      have hmark : HeadNot (fun c => c == 'e' || c == 'E') (c :: cs) := h.headNot rfl rfl rfl
      rw [readExponent, if_neg (by simpa using Text.headNot_cons.1 hmark)]

/-- Digits without a point or an exponent are read as they stand. -/
theorem readNumeral_decimal (negative : Bool) (n : Nat) {rest : List Char} (h : Closed rest) :
    readNumeral negative (Text.decimalChars n ++ rest) =
      some (⟨negative, Text.decimalChars n, none, none⟩, rest) := by
  have hdigits : readDigits (Text.decimalChars n ++ rest) = some (Text.decimalChars n, rest) :=
    readDigits_append (fun _ => Text.isDigit_decimalChars) (Text.decimalChars_ne_nil n)
      (h.headNot rfl rfl rfl)
  have hzero : ((Text.decimalChars n).length ≠ 1 && (Text.decimalChars n).head? == some '0') =
      false := by
    rcases Text.decimalChars_no_leading_zero n with hone | hhead <;> simp [*]
  simp only [readNumeral, hdigits, Option.bind_eq_bind, Option.bind_some, hzero,
    readFraction_closed h, readExponent_closed h]
  rfl

/-- Digits whose number stays below the bound are all taken. -/
theorem takeDigits_eq {ds : List Char} {m : Nat} (h : Nat.ofDigitChars 10 ds m < significandBound) :
    takeDigits m ds = (Nat.ofDigitChars 10 ds m, []) := by
  induction ds generalizing m with
  | nil => rfl
  | cons d ds ih =>
      rw [Nat.ofDigitChars_cons] at h ⊢
      rw [Nat.mul_comm] at h ⊢
      -- further digits do not make the number smaller
      have hnext : m * 10 + (d.toNat - '0'.toNat) < significandBound := by
        have hgrow := @Nat.ofDigitChars_eq_ofDigitChars_zero ds (m * 10 + (d.toNat - '0'.toNat))
        have hpow : 1 ≤ 10 ^ ds.length := Nat.one_le_pow _ _ (by decide)
        have hle := Nat.le_mul_of_pos_left (m * 10 + (d.toNat - '0'.toNat)) hpow
        omega
      rw [takeDigits, if_pos hnext, ih h]

/-- The number of an integer as it is written. -/
def numeralOf (i : Int) : Numeral :=
  ⟨i < 0, Text.decimalChars i.natAbs, none, none⟩

/-- An integer in range is exact. -/
theorem eval?_numeralOf {i : Int} (hlo : -9223372036854775808 ≤ i)
    (hhi : i < 18446744073709551616) :
    (numeralOf i).eval? = some (.int i) := by
  have htake : takeDigits 0 (Text.decimalChars i.natAbs) = (i.natAbs, []) := by
    have hvalue : Nat.ofDigitChars 10 (Text.decimalChars i.natAbs) 0 = i.natAbs :=
      Text.valueOfDigits_decimalChars i.natAbs
    have hbound : i.natAbs < significandBound := by
      simp only [significandBound, UInt64.size]
      omega
    rw [takeDigits_eq (by rwa [hvalue]), hvalue]
  by_cases hneg : i < 0
  · have hrange : 0 < i.natAbs ∧ i.natAbs ≤ 9223372036854775808 := by omega
    have habs : -(i.natAbs : Int) = i := by omega
    simp only [numeralOf, Numeral.eval?, htake, hneg, decide_true, Bool.not_true,
      Bool.false_eq_true, if_false, if_pos hrange, habs]
  · have habs : (i.natAbs : Int) = i := by omega
    simp only [numeralOf, Numeral.eval?, htake, hneg, decide_false, Bool.not_false, if_true, habs]

/-! ### Values -/

/-- Values without doubles and with at most `depth` levels of nesting, whose integers are in range
and whose objects have different names. -/
inductive Exact : Nat → Json → Prop
  | null {depth : Nat} : Exact depth .null
  | bool {depth : Nat} {b : Bool} : Exact depth (.bool b)
  | int {depth : Nat} {i : Int} (lo : -9223372036854775808 ≤ i) (hi : i < 18446744073709551616) :
      Exact depth (.int i)
  | str {depth : Nat} {s : String} : Exact depth (.str s)
  | arr {depth : Nat} {items : List Json} (items_exact : ∀ v ∈ items, Exact depth v) :
      Exact (depth + 1) (.arr items)
  | obj {depth : Nat} {fields : List (String × Json)} (values_exact : ∀ f ∈ fields, Exact depth f.2)
      (names_nodup : (fields.map Prod.fst).Nodup) : Exact (depth + 1) (.obj fields)

/-- More levels of nesting may be allowed. -/
theorem Exact.mono {depth deeper : Nat} {v : Json} (h : Exact depth v) (hle : depth ≤ deeper) :
    Exact deeper v := by
  induction h generalizing deeper with
  | null => exact .null
  | bool => exact .bool
  | int lo hi => exact .int lo hi
  | str => exact .str
  | arr _ ih =>
      obtain ⟨k, rfl⟩ : ∃ k, deeper = k + 1 := ⟨deeper - 1, by omega⟩
      exact .arr fun v hv => ih v hv (by omega)
  | obj _ hnodup ih =>
      obtain ⟨k, rfl⟩ : ∃ k, deeper = k + 1 := ⟨deeper - 1, by omega⟩
      exact .obj (fun f hf => ih f hf (by omega)) hnodup

/-- The text of a value can be told from what stands before it, and is read as a written form with
that value, whatever closes it. -/
structure Reads (depth : Nat) (v : Json) : Prop where
  starts : ∃ c cs, (render v).toList = c :: cs ∧ isSpace c = false ∧ c ≠ ']'
  reads : ∃ w, w.eval? (depth + 1) = some v ∧
    ∀ fuel rest, 2 * (render v).toList.length ≤ fuel → Closed rest →
      readValue fuel ((render v).toList ++ rest) = some (w, rest)

theorem skipSpace_cons {c : Char} {cs : List Char} (h : isSpace c = false) :
    skipSpace (c :: cs) = c :: cs := by
  simp [skipSpace, h]

/-- A text has a character, so that there is fuel for it. -/
theorem Reads.of_start {depth : Nat} {v : Json} {c : Char} {cs : List Char} {w : Written}
    (htext : (render v).toList = c :: cs) (hspace : isSpace c = false) (hbracket : c ≠ ']')
    (heval : w.eval? (depth + 1) = some v)
    (hread : ∀ fuel rest, 2 * (c :: cs).length ≤ fuel + 1 → Closed rest →
      readValue (fuel + 1) (c :: cs ++ rest) = some (w, rest)) : Reads depth v where
  starts := ⟨c, cs, htext, hspace, hbracket⟩
  reads := by
    refine ⟨w, heval, fun fuel rest hfuel hrest => ?_⟩
    rw [htext] at hfuel ⊢
    obtain ⟨k, rfl⟩ : ∃ k, fuel = k + 1 := ⟨fuel - 1, by rw [List.length_cons] at hfuel; omega⟩
    exact hread k rest hfuel hrest

theorem reads_null {depth : Nat} : Reads depth .null :=
  .of_start (w := .null) rfl (by decide) (by decide) rfl fun _ _ _ _ => rfl

theorem reads_bool {depth : Nat} (b : Bool) : Reads depth (.bool b) := by
  cases b with
  | true => exact .of_start (w := .bool true) rfl (by decide) (by decide) rfl fun _ _ _ _ => rfl
  | false => exact .of_start (w := .bool false) rfl (by decide) (by decide) rfl fun _ _ _ _ => rfl

theorem reads_str {depth : Nat} (s : String) : Reads depth (.str s) := by
  have heval : (Written.text (piecesOf s)).eval? (depth + 1) = some (.str s) := by
    simp [Written.eval?]
  refine .of_start (toList_quote s) (by decide) (by decide) heval fun fuel rest _ _ => ?_
  have hread := readPieces_quote s rest
  simp [readValue, skipSpace_cons (show isSpace '"' = false by decide), hread]

theorem isSpace_of_isDigit {c : Char} (h : c.isDigit = true) : isSpace c = false := by
  simp [isSpace, Text.isDigit_ne h]

/-- A text that begins with a digit is a number. -/
theorem readValue_digit (fuel : Nat) {c : Char} (cs : List Char) (hc : c.isDigit = true) :
    readValue (fuel + 1) (c :: cs) = (readNumeral false (c :: cs)).map fun (n, rest) =>
      (.number n, rest) := by
  rw [readValue, skipSpace_cons (isSpace_of_isDigit hc)]
  -- every other pattern begins with a mark or a letter
  split <;> simp_all

theorem reads_int {depth : Nat} {i : Int} (hlo : -9223372036854775808 ≤ i)
    (hhi : i < 18446744073709551616) :
    Reads depth (.int i) := by
  have heval : (Written.number (numeralOf i)).eval? (depth + 1) = some (.int i) :=
    eval?_numeralOf hlo hhi
  by_cases hneg : i < 0
  · have htext : (render (.int i)).toList = '-' :: Text.decimalChars i.natAbs := by
      simp [render, renderInt, hneg, Text.decimal]
    refine .of_start htext (by decide) (by decide) heval fun fuel rest _ hrest => ?_
    simp [readValue, skipSpace_cons (show isSpace '-' = false by decide),
      readNumeral_decimal true _ hrest, numeralOf, hneg]
  · have htext : (render (.int i)).toList = Text.decimalChars i.natAbs := by
      simp [render, renderInt, hneg, Text.decimal]
    obtain ⟨c, cs, hcs⟩ := List.exists_cons_of_ne_nil (Text.decimalChars_ne_nil i.natAbs)
    have hdigit : c.isDigit = true :=
      Text.isDigit_decimalChars (by rw [hcs]; exact List.mem_cons_self)
    refine .of_start (htext.trans hcs) (isSpace_of_isDigit hdigit)
      (Text.isDigit_ne hdigit (by decide)) heval
      fun fuel rest _ hrest => ?_
    rw [List.cons_append, readValue_digit fuel _ hdigit, ← List.cons_append, ← hcs,
      readNumeral_decimal false _ hrest]
    simp [numeralOf, hneg]

/-! ### Lists and records -/

/-- Parts of a list or record with commas between them. -/
def joined (parts : List String) : List Char :=
  (",".intercalate parts).toList

@[simp] theorem joined_singleton (s : String) : joined [s] = s.toList := by simp [joined]

@[simp] theorem joined_cons_cons (s t : String) (parts : List String) :
    joined (s :: t :: parts) = s.toList ++ ',' :: joined (t :: parts) := by
  simp [joined]

/-- Joined parts begin as the first of them does. -/
theorem joined_eq_cons {s : String} {c : Char} {cs : List Char} (h : s.toList = c :: cs)
    (parts : List String) :
    ∃ ds, joined (s :: parts) = c :: ds := by
  cases parts with
  | nil => exact ⟨cs, by simp [h]⟩
  | cons t parts => exact ⟨cs ++ ',' :: joined (t :: parts), by simp [h]⟩

theorem renderItems_eq_map (items : List Json) : renderItems items = items.map render := by
  induction items with
  | nil => rfl
  | cons v items ih => rw [renderItems, ih, List.map_cons]

/-- The text of a field. -/
def renderField (f : String × Json) : String :=
  quote f.1 ++ ":" ++ render f.2

theorem renderFields_eq_map (fields : List (String × Json)) :
    renderFields fields = fields.map renderField := by
  induction fields with
  | nil => rfl
  | cons f fields ih => rw [renderFields, ih, List.map_cons, renderField]

theorem toList_render_arr (items : List Json) :
    (render (.arr items)).toList = '[' :: (joined (items.map render) ++ [']']) := by
  simp [render, renderItems_eq_map, joined]

theorem toList_render_obj (fields : List (String × Json)) :
    (render (.obj fields)).toList = '{' :: (joined (fields.map renderField) ++ ['}']) := by
  simp [render, renderFields_eq_map, joined]

/-- One or more items are read up to the closing bracket, and have the values they were written
for. -/
theorem readItems_joined {depth : Nat} {v : Json} {vs : List Json}
    (h : ∀ u ∈ v :: vs, Reads depth u) :
    ∃ ws, evalItems (depth + 1) ws = some (v :: vs) ∧
      ∀ fuel acc rest, 2 * (joined ((v :: vs).map render)).length + 1 ≤ fuel →
        readItems fuel acc (joined ((v :: vs).map render) ++ ']' :: rest) =
          some (acc.reverse ++ ws, rest) := by
  induction vs generalizing v with
  | nil =>
      obtain ⟨w, heval, hread⟩ := (h v List.mem_cons_self).reads
      refine ⟨[w], by simp [evalItems, heval], fun fuel acc rest hfuel => ?_⟩
      obtain ⟨k, rfl⟩ : ∃ k, fuel = k + 1 := ⟨fuel - 1, by omega⟩
      have hfirst := hread k (']' :: rest) (by simpa using hfuel) (by simp)
      simp [readItems, hfirst, skipSpace_cons (show isSpace ']' = false by decide)]
  | cons u us ih =>
      obtain ⟨w, heval, hread⟩ := (h v List.mem_cons_self).reads
      obtain ⟨ws, hevals, hreads⟩ := ih fun x hx => h x (List.mem_cons_of_mem _ hx)
      refine ⟨w :: ws, by simp [evalItems, heval, hevals], fun fuel acc rest hfuel => ?_⟩
      obtain ⟨k, rfl⟩ : ∃ k, fuel = k + 1 := ⟨fuel - 1, by omega⟩
      simp only [List.map_cons, joined_cons_cons, List.length_append,
        List.length_cons] at hfuel hreads ⊢
      have hfirst := hread k (',' :: (joined (render u :: us.map render) ++ ']' :: rest)) (by omega)
        (by simp)
      have hrest := hreads k (w :: acc) rest (by omega)
      simp [readItems, hfirst, skipSpace_cons (show isSpace ',' = false by decide), hrest]

theorem toList_renderField (f : String × Json) :
    (renderField f).toList = '"' :: (f.1.toList.flatMap quoteChar ++ '"' :: ':' ::
      (render f.2).toList) := by
  simp [renderField, toList_quote]

theorem setField_of_notMem {fields : List (String × Json)} {name : String}
    (h : name ∉ fields.map Prod.fst) (v : Json) :
    setField fields name v = fields ++ [(name, v)] := by
  induction fields with
  | nil => rfl
  | cons f fields ih =>
      rw [List.map_cons, List.mem_cons, not_or] at h
      rw [setField, if_neg (Ne.symm h.1), ih h.2, List.cons_append]

theorem name_notMem_of_nodup {before after : List (String × Json)} {f : String × Json}
    (h : ((before ++ f :: after).map Prod.fst).Nodup) : f.1 ∉ before.map Prod.fst := by
  rw [List.map_append, List.nodup_append] at h
  exact fun hmem => h.2.2 f.1 hmem f.1 (by simp) rfl

/-- One field is read up to the mark behind it. -/
theorem readFields_field {depth : Nat} {f : String × Json} (h : Reads depth f.2) :
    ∃ w, w.eval? (depth + 1) = some f.2 ∧
      ∀ fuel acc rest, 2 * (renderField f).toList.length ≤ fuel →
        readFields (fuel + 1) acc ((renderField f).toList ++ '}' :: rest) =
            some (acc.reverse ++ [(piecesOf f.1, w)], rest) ∧
        readFields (fuel + 1) acc ((renderField f).toList ++ ',' :: rest) =
            readFields fuel ((piecesOf f.1, w) :: acc) rest := by
  obtain ⟨w, heval, hread⟩ := h.reads
  refine ⟨w, heval, fun fuel acc rest hfuel => ?_⟩
  have hlen : 2 * (render f.2).toList.length ≤ fuel := by
    simp only [toList_renderField, List.length_cons, List.length_append] at hfuel
    omega
  have hname (c : Char) := readPieces_quote f.1 (':' :: ((render f.2).toList ++ c :: rest))
  have hvalue (c : Char) (hc : Closed (c :: rest)) := hread fuel (c :: rest) hlen hc
  have hquote : isSpace '"' = false := by decide
  have hcolon : isSpace ':' = false := by decide
  constructor
  · simp [toList_renderField, readFields, skipSpace_cons hquote, hname, skipSpace_cons hcolon,
      hvalue '}' (by simp), skipSpace_cons (show isSpace '}' = false by decide)]
  · simp [toList_renderField, readFields, skipSpace_cons hquote, hname, skipSpace_cons hcolon,
      hvalue ',' (by simp), skipSpace_cons (show isSpace ',' = false by decide)]

/-- One or more fields are read up to the closing brace. Their values come after the fields before
them as long as all names differ. -/
theorem readFields_joined {depth : Nat} {f : String × Json} {fs : List (String × Json)}
    (h : ∀ g ∈ f :: fs, Reads depth g.2) :
    ∃ ws, (∀ before, ((before ++ f :: fs).map Prod.fst).Nodup →
        evalFields (depth + 1) before ws = some (before ++ f :: fs)) ∧
      ∀ fuel acc rest, 2 * (joined ((f :: fs).map renderField)).length + 1 ≤ fuel →
        readFields fuel acc (joined ((f :: fs).map renderField) ++ '}' :: rest) =
          some (acc.reverse ++ ws, rest) := by
  induction fs generalizing f with
  | nil =>
      obtain ⟨w, heval, hread⟩ := readFields_field (h f List.mem_cons_self)
      refine ⟨[(piecesOf f.1, w)], fun before hnodup => ?_, fun fuel acc rest hfuel => ?_⟩
      · have hnew := name_notMem_of_nodup hnodup
        simp [evalFields, heval, setField_of_notMem hnew]
      · obtain ⟨k, rfl⟩ : ∃ k, fuel = k + 1 := ⟨fuel - 1, by omega⟩
        rw [List.map_singleton, joined_singleton] at hfuel ⊢
        exact (hread k acc rest (by omega)).1
  | cons g gs ih =>
      obtain ⟨w, heval, hread⟩ := readFields_field (h f List.mem_cons_self)
      obtain ⟨ws, hevals, hreads⟩ := ih fun x hx => h x (List.mem_cons_of_mem _ hx)
      refine ⟨(piecesOf f.1, w) :: ws, fun before hnodup => ?_, fun fuel acc rest hfuel => ?_⟩
      · have hnew := name_notMem_of_nodup hnodup
        have hrest := hevals (before ++ [f]) (by simpa using hnodup)
        simpa [evalFields, heval, setField_of_notMem hnew] using hrest
      · obtain ⟨k, rfl⟩ : ∃ k, fuel = k + 1 := ⟨fuel - 1, by omega⟩
        simp only [List.map_cons, joined_cons_cons, List.length_append,
          List.length_cons] at hfuel hreads ⊢
        rw [List.append_assoc, List.cons_append, (hread k acc _ (by omega)).2,
          hreads k _ rest (by omega)]
        simp

theorem reads_arr {depth : Nat} {items : List Json} (h : ∀ v ∈ items, Reads depth v) :
    Reads (depth + 1) (.arr items) := by
  have hspace : isSpace '[' = false := by decide
  cases items with
  | nil =>
      refine .of_start (w := .list []) (toList_render_arr []) hspace (by decide) ?_
        fun fuel rest _ _ => rfl
      simp [Written.eval?, evalItems]
  | cons v vs =>
      obtain ⟨ws, heval, hread⟩ := readItems_joined h
      refine .of_start (w := .list ws) (toList_render_arr _) hspace (by decide) ?_
        fun fuel rest hfuel _ => ?_
      · simp [Written.eval?, heval]
      · have hitems := hread fuel [] rest (by
          rw [List.length_cons, List.length_append] at hfuel
          omega)
        -- the first item does not begin with the bracket that closes an empty list
        obtain ⟨c, cs, hcs, hc, hbracket⟩ := (h v List.mem_cons_self).starts
        obtain ⟨ds, hds⟩ := joined_eq_cons hcs (vs.map render)
        rw [List.map_cons, hds, List.cons_append] at hitems
        rw [List.map_cons, hds, List.cons_append, List.cons_append, readValue,
          skipSpace_cons hspace]
        simp [skipSpace_cons hc, hbracket, hitems]

theorem reads_obj {depth : Nat} {fields : List (String × Json)} (h : ∀ f ∈ fields, Reads depth f.2)
    (hnodup : (fields.map Prod.fst).Nodup) : Reads (depth + 1) (.obj fields) := by
  have hspace : isSpace '{' = false := by decide
  cases fields with
  | nil =>
      refine .of_start (w := .record []) (toList_render_obj []) hspace (by decide) ?_
        fun fuel rest _ _ => rfl
      simp [Written.eval?, evalFields]
  | cons f fs =>
      obtain ⟨ws, heval, hread⟩ := readFields_joined h
      refine .of_start (w := .record ws) (toList_render_obj _) hspace (by decide) ?_
        fun fuel rest hfuel _ => ?_
      · have hfields := heval [] (by simpa using hnodup)
        simp [Written.eval?, hfields]
      · have hfields := hread fuel [] rest (by
          rw [List.length_cons, List.length_append] at hfuel
          omega)
        obtain ⟨ds, hds⟩ := joined_eq_cons (toList_renderField f) (fs.map renderField)
        rw [List.map_cons, hds, List.cons_append] at hfields
        rw [List.map_cons, hds, List.cons_append, List.cons_append, readValue,
          skipSpace_cons hspace]
        simp [skipSpace_cons (show isSpace '"' = false by decide), hfields]

/-- Every exact value is read from its text. -/
theorem Exact.reads {depth : Nat} {v : Json} (h : Exact depth v) : Reads depth v := by
  induction h with
  | null => exact reads_null
  | bool => exact reads_bool _
  | int lo hi => exact reads_int lo hi
  | str => exact reads_str _
  | arr _ ih => exact reads_arr ih
  | obj _ hnodup ih => exact reads_obj ih hnodup

/-- **Reading undoes writing.** -/
theorem parse?_render {v : Json} (h : Exact 127 v) : parse? v.render = some v := by
  obtain ⟨w, heval, hread⟩ := h.reads.reads
  have hwhole := hread (2 * v.render.toList.length + 2) [] (by omega) closed_nil
  rw [List.append_nil] at hwhole
  simp [parse?, readWritten?, hwhole, skipSpace, heval, depthLimit]

end EnvDiscovery.Json
