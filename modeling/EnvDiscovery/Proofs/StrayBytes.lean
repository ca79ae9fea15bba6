import EnvDiscovery.Text.Utf8
import Mathlib.Data.List.Forall2

/-!
**Bytes as texts with stray bytes.**

Every sequence of bytes is a text with stray bytes, and nothing of it is lost: the bytes of the text
are those that it was read from. It is shown like output of a program, with replacement characters
where the bytes are not well formed.

Main definitions:
* `Text.Utf8.Leads` — the first bytes of characters of several bytes;
* `Text.Utf8.Held` — the bytes of a character under way.

Main results:
* `Text.Utf8.Leads.encode_value` — the bytes that make up a character are those of its encoding;
* `Text.Utf8.Held.meets` — what a byte can do after others;
* `Text.rawBytes_ofBytes` — **no byte is lost**;
* `Text.shown_ofBytes` — **bytes are shown like output of a program**.
-/

namespace EnvDiscovery.Text

theorem toNat_ofNat {n : Nat} (h : n.isValidChar) : (Char.ofNat n).toNat = n := by
  rw [Char.ofNat, dif_pos h]
  rfl

/-! ### Characters for stray bytes -/

theorem strayByte_ge {c : Char} (h : isStray c = true) : 128 ≤ (strayByte c).toNat := by
  have hlow : 0x10FF80 ≤ c.toNat := of_decide_eq_true h
  have hhigh : c.toNat < 0x110000 := by
    rcases c.valid with h | h
    · exact Nat.lt_trans h (by decide)
    · exact h.2
  have hbyte : (c.toNat - 0x10FF00) % 256 = c.toNat - 0x10FF00 := Nat.mod_eq_of_lt (by omega)
  rw [strayByte, UInt8.toNat_ofNat', hbyte]
  omega

theorem toNat_stray (b : UInt8) : (stray b).toNat = 0x10FF00 + b.toNat := by
  have hb := b.toNat_lt
  exact toNat_ofNat (.inr ⟨by omega, by omega⟩)

theorem isStray_stray {b : UInt8} (h : 128 ≤ b.toNat) : isStray (stray b) = true := by
  rw [isStray, toNat_stray]
  exact decide_eq_true (by omega)

theorem strayByte_stray (b : UInt8) : strayByte (stray b) = b := by
  rw [strayByte, toNat_stray, Nat.add_sub_cancel_left, UInt8.ofNat_toNat]

namespace Utf8

variable {a b : UInt8} {bs held : List UInt8} {p : Pending} {pending : Option Pending}

/-! ### Characters of several bytes -/

/-- What the first byte of a character of several bytes leaves under way. -/
inductive Leads : Nat → Pending → Prop
  | two {b : Nat} (hlow : 0xC2 ≤ b) (hhigh : b < 0xE0) : Leads b ⟨b - 0xC0, [tail]⟩
  | threeLow : Leads 0xE0 ⟨0, [(0xA0, 0xBF), tail]⟩
  | threeHigh : Leads 0xED ⟨0xD, [(0x80, 0x9F), tail]⟩
  | three {b : Nat} (hlow : 0xE0 < b) (hhigh : b < 0xF0) (hne : b ≠ 0xED) :
      Leads b ⟨b - 0xE0, [tail, tail]⟩
  | fourLow : Leads 0xF0 ⟨0, [(0x90, 0xBF), tail, tail]⟩
  | four {b : Nat} (hlow : 0xF0 < b) (hhigh : b < 0xF4) :
      Leads b ⟨b - 0xF0, [tail, tail, tail]⟩
  | fourHigh : Leads 0xF4 ⟨4, [(0x80, 0x8F), tail, tail]⟩

theorem Leads.ge {b : Nat} (h : Leads b p) : 128 ≤ b := by
  cases h <;> omega

theorem Leads.due_ge {b : Nat} (h : Leads b p) :
    p.due ≠ [] ∧ ∀ range ∈ p.due, 0x80 ≤ range.1 := by
  cases h <;> simp [tail]

theorem Leads.start_eq {b : Nat} (h : Leads b p) : start b = ([], some p) := by
  cases h with
  | two hlow hhigh => rw [start, if_neg (by omega), if_neg (by omega), if_pos hhigh]
  | threeLow | threeHigh | fourLow | fourHigh => rfl
  | three hlow hhigh hne =>
      rw [start, if_neg (by omega), if_neg (by omega), if_neg (by omega), if_neg (by omega),
        if_neg hne, if_pos hhigh]
  | four hlow hhigh =>
      rw [start, if_neg (by omega), if_neg (by omega), if_neg (by omega), if_neg (by omega),
        if_neg (by omega), if_neg (by omega), if_neg (by omega), if_pos hhigh]

/-- What a byte does outside a character. -/
theorem start_cases (b : Nat) :
    (b < 128 ∧ start b = ([Char.ofNat b], none)) ∨
      (128 ≤ b ∧ start b = ([replacement], none)) ∨
      ∃ p, Leads b p ∧ start b = ([], some p) := by
  unfold start
  by_cases h0 : b < 0x80
  · exact .inl ⟨h0, if_pos h0⟩
  refine .inr ?_
  rw [if_neg h0]
  by_cases h1 : b < 0xC2
  · exact .inl ⟨by omega, if_pos h1⟩
  rw [if_neg h1]
  by_cases h2 : b < 0xE0
  · exact .inr ⟨_, .two (by omega) h2, if_pos h2⟩
  rw [if_neg h2]
  by_cases h3 : b = 0xE0
  · exact .inr ⟨_, h3 ▸ .threeLow, if_pos h3⟩
  rw [if_neg h3]
  by_cases h4 : b = 0xED
  · exact .inr ⟨_, h4 ▸ .threeHigh, if_pos h4⟩
  rw [if_neg h4]
  by_cases h5 : b < 0xF0
  · exact .inr ⟨_, .three (by omega) h5 h4, if_pos h5⟩
  rw [if_neg h5]
  by_cases h6 : b = 0xF0
  · exact .inr ⟨_, h6 ▸ .fourLow, if_pos h6⟩
  rw [if_neg h6]
  by_cases h7 : b < 0xF4
  · exact .inr ⟨_, .four (by omega) h7, if_pos h7⟩
  rw [if_neg h7]
  by_cases h8 : b = 0xF4
  · exact .inr ⟨_, h8 ▸ .fourHigh, if_pos h8⟩
  · exact .inl ⟨by omega, if_neg h8⟩

/-- Whether a byte is in a range. -/
def InRange (range : Nat × Nat) (b : UInt8) : Prop :=
  range.1 ≤ b.toNat ∧ b.toNat ≤ range.2

/-- The number of a character after more bytes of it. -/
def Pending.value (p : Pending) (bs : List UInt8) : Nat :=
  bs.foldl (fun bits b => bits * 64 + (b.toNat - 0x80)) p.bits

theorem ofNat_eq_byte {n : Nat} (h : n = b.toNat) : UInt8.ofNat n = b := by
  rw [h, UInt8.ofNat_toNat]

theorem encode_two {a b : UInt8} (ha : 0xC2 ≤ a.toNat ∧ a.toNat < 0xE0)
    (hb : 0x80 ≤ b.toNat ∧ b.toNat ≤ 0xBF) :
    String.utf8EncodeChar (Char.ofNat ((a.toNat - 0xC0) * 64 + (b.toNat - 0x80))) = [a, b] := by
  generalize hv : (a.toNat - 0xC0) * 64 + (b.toNat - 0x80) = v
  have hval : (Char.ofNat v).val.toNat = v := toNat_ofNat (.inl (by omega))
  rw [String.utf8EncodeChar, hval, if_neg (by omega), if_pos (by omega),
    ofNat_eq_byte (b := a) (by omega), ofNat_eq_byte (b := b) (by omega)]

theorem encode_three {a b c : UInt8} {v : Nat} (ha : 0xE0 ≤ a.toNat ∧ a.toNat < 0xF0)
    (hb : 0x80 ≤ b.toNat ∧ b.toNat ≤ 0xBF) (hc : 0x80 ≤ c.toNat ∧ c.toNat ≤ 0xBF)
    (hv : v = ((a.toNat - 0xE0) * 64 + (b.toNat - 0x80)) * 64 + (c.toNat - 0x80))
    (hlow : 0x800 ≤ v) (hvalid : v < 0xD800 ∨ 0xDFFF < v) :
    String.utf8EncodeChar (Char.ofNat v) = [a, b, c] := by
  have hval : (Char.ofNat v).val.toNat = v :=
    toNat_ofNat (hvalid.imp_right fun h => ⟨h, by omega⟩)
  rw [String.utf8EncodeChar, hval, if_neg (by omega), if_neg (by omega), if_pos (by omega),
    ofNat_eq_byte (b := a) (by omega), ofNat_eq_byte (b := b) (by omega),
    ofNat_eq_byte (b := c) (by omega)]

theorem encode_four {a b c d : UInt8} {v : Nat} (ha : 0xF0 ≤ a.toNat ∧ a.toNat < 0xF5)
    (hb : 0x80 ≤ b.toNat ∧ b.toNat ≤ 0xBF) (hc : 0x80 ≤ c.toNat ∧ c.toNat ≤ 0xBF)
    (hd : 0x80 ≤ d.toNat ∧ d.toNat ≤ 0xBF)
    (hv : v = (((a.toNat - 0xF0) * 64 + (b.toNat - 0x80)) * 64 + (c.toNat - 0x80)) * 64 +
      (d.toNat - 0x80))
    (hlow : 0x10000 ≤ v) (hhigh : v < 0x110000) :
    String.utf8EncodeChar (Char.ofNat v) = [a, b, c, d] := by
  have hval : (Char.ofNat v).val.toNat = v := toNat_ofNat (.inr ⟨by omega, hhigh⟩)
  rw [String.utf8EncodeChar, hval, if_neg (by omega), if_neg (by omega), if_neg (by omega),
    ofNat_eq_byte (b := a) (by omega), ofNat_eq_byte (b := b) (by omega),
    ofNat_eq_byte (b := c) (by omega), ofNat_eq_byte (b := d) (by omega)]

/-- The bytes that make up a character are those of its encoding. -/
theorem Leads.encode_value (h : Leads a.toNat p) (hbs : List.Forall₂ InRange p.due bs) :
    String.utf8EncodeChar (Char.ofNat (p.value bs)) = a :: bs := by
  generalize ha : a.toNat = n at h
  -- one case for each kind of first byte; the ranges keep the numbers apart from shorter
  -- encodings, from the surrogates and from what is beyond the last character
  cases h <;> simp only [List.forall₂_cons_left_iff, List.forall₂_nil_left_iff, InRange, tail]
    at hbs
  case two hlow hhigh =>
    obtain ⟨b, _, hb, rfl, rfl⟩ := hbs
    subst ha
    exact encode_two ⟨hlow, hhigh⟩ hb
  case threeLow | threeHigh | three =>
    obtain ⟨b, _, hb, ⟨c, _, hc, rfl, rfl⟩, rfl⟩ := hbs
    simp only [Pending.value, List.foldl_cons, List.foldl_nil]
    exact encode_three (by omega) (by omega) hc (by omega) (by omega) (by omega)
  case fourLow | four | fourHigh =>
    obtain ⟨b, _, hb, ⟨c, _, hc, ⟨d, _, hd, rfl, rfl⟩, rfl⟩, rfl⟩ := hbs
    simp only [Pending.value, List.foldl_cons, List.foldl_nil]
    exact encode_four (by omega) (by omega) hc hd (by omega) (by omega) (by omega)

/-! ### Characters under way -/

/-- The bytes that were read of a character under way; none where nothing is under way. -/
inductive Held : List UInt8 → Option Pending → Prop
  | nothing : Held [] none
  | first {b : UInt8} {p : Pending} (h : Leads b.toNat p) : Held [b] (some p)
  | next {held : List UInt8} {bits : Nat} {range more : Nat × Nat} {due : List (Nat × Nat)}
      {b : UInt8} (h : Held held (some ⟨bits, range :: more :: due⟩)) (hb : InRange range b) :
      Held (held ++ [b]) (some ⟨bits * 64 + (b.toNat - 0x80), more :: due⟩)

/-- Whether a byte does not belong to what is under way, which waits for one. -/
def Rejects (pending : Option Pending) (b : UInt8) : Prop :=
  ∀ p ∈ pending, ∃ range ∈ p.due.head?, ¬InRange range b

theorem rejects_none (b : UInt8) : Rejects none b :=
  fun _ h => absurd h (Option.not_mem_none _)

namespace Held

/-- The first byte leads to what is under way. -/
theorem spec (h : Held held (some p)) : ∃ a bs first past, held = a :: bs ∧ Leads a.toNat first ∧
    first.due = past ++ p.due ∧ List.Forall₂ InRange past bs ∧ p.bits = first.value bs := by
  generalize hpending : some p = pending at h
  induction h generalizing p with
  | nothing => exact absurd hpending (Option.some_ne_none p)
  | @first b q hq =>
      obtain rfl := Option.some.inj hpending
      exact ⟨b, [], p, [], rfl, hq, rfl, .nil, rfl⟩
  | @next held bits range more due b h hb ih =>
      obtain rfl := Option.some.inj hpending
      obtain ⟨a, bs, first, past, rfl, hfirst, hdue, hpast, hbits⟩ := ih rfl
      refine ⟨a, bs ++ [b], first, past ++ [range], rfl, hfirst, ?_, ?_, ?_⟩
      · rw [hdue, List.append_assoc, List.singleton_append]
      · exact List.rel_append hpast (.cons hb .nil)
      · rw [Pending.value, List.foldl_append, ← Pending.value, ← hbits]
        rfl

/-- A character under way waits for a byte, and for none of the first 128. -/
theorem due_ge (h : Held held (some p)) : p.due ≠ [] ∧ ∀ range ∈ p.due, 0x80 ≤ range.1 := by
  generalize hpending : some p = pending at h
  induction h generalizing p with
  | nothing => exact absurd hpending (Option.some_ne_none p)
  | first hq =>
      obtain rfl := Option.some.inj hpending
      exact hq.due_ge
  | next h hb ih =>
      obtain rfl := Option.some.inj hpending
      exact ⟨List.cons_ne_nil _ _, fun range hr => (ih rfl).2 range (List.mem_cons_of_mem _ hr)⟩

theorem ge (h : Held held pending) : ∀ b ∈ held, 128 ≤ b.toNat := by
  induction h with
  | nothing => exact fun b hb => absurd hb List.not_mem_nil
  | first hq =>
      intro b hb
      obtain rfl := List.mem_singleton.1 hb
      exact hq.ge
  | next h hb ih =>
      intro b' hb'
      rcases List.mem_append.1 hb' with hb' | hb'
      · exact ih b' hb'
      · obtain rfl := List.mem_singleton.1 hb'
        exact Nat.le_trans (h.due_ge.2 _ List.mem_cons_self) hb.1

theorem ge_append (h : Held held pending) (hb : 128 ≤ b.toNat) :
    ∀ b' ∈ held ++ [b], 128 ≤ b'.toNat :=
  List.forall_mem_append.2 ⟨h.ge, List.forall_mem_singleton.2 hb⟩

/-- **What a byte can do after others**: it does not belong to them, or the character goes on, or it
is complete. -/
theorem meets (h : Held held pending) (b : UInt8) : Rejects pending b ∨
    (pending.any (·.takes b) = true ∧ 128 ≤ b.toNat ∧
      ((∃ next, step pending b.toNat = ([], some next) ∧ Held (held ++ [b]) (some next)) ∨
        ∃ c, step pending b.toNat = ([c], none) ∧ String.utf8EncodeChar c = held ++ [b])) := by
  cases pending with
  | none => exact .inl (rejects_none b)
  | some p =>
      obtain ⟨bits, due⟩ := p
      cases due with
      | nil => exact absurd rfl h.due_ge.1
      | cons range due =>
          by_cases hb : InRange range b
          · have hge : 128 ≤ b.toNat := Nat.le_trans (h.due_ge.2 _ List.mem_cons_self) hb.1
            refine .inr ⟨by simpa [Pending.takes, InRange] using hb, hge, ?_⟩
            have hstep : step (some ⟨bits, range :: due⟩) b.toNat = _ := if_pos hb
            cases due with
            | nil =>
                obtain ⟨a, bs, first, past, rfl, hfirst, hdue, hpast, hbits⟩ := h.spec
                refine .inr ⟨_, hstep, ?_⟩
                have hvalue : first.value (bs ++ [b]) = bits * 64 + (b.toNat - 0x80) := by
                  rw [Pending.value, List.foldl_append, ← Pending.value, ← hbits]
                  rfl
                rw [← hvalue]
                refine hfirst.encode_value ?_
                rw [hdue]
                exact List.rel_append hpast (.cons hb .nil)
            | cons more due => exact .inl ⟨_, hstep, .next h hb⟩
          · refine .inl fun p hp => ?_
            obtain rfl := Option.some.inj hp
            exact ⟨range, rfl, hb⟩

end Held

/-- A byte that does not belong to what is under way ends it and begins anew. -/
theorem Rejects.step (h : Rejects pending b) :
    step pending b.toNat = (decode pending [] ++ (start b.toNat).1, (start b.toNat).2) := by
  cases pending with
  | none => rfl
  | some p =>
      obtain ⟨range, hrange, hb⟩ := h p rfl
      obtain ⟨bits, due⟩ := p
      cases due with
      | nil => exact absurd hrange (Option.not_mem_none _)
      | cons range' due =>
          obtain rfl := Option.some.inj hrange
          exact if_neg hb

theorem Rejects.not_takes (h : Rejects pending b) : pending.any (·.takes b) = false := by
  cases pending with
  | none => rfl
  | some p =>
      obtain ⟨range, hrange, hb⟩ := h p rfl
      have hhead : p.due.head? = some range := hrange
      simpa [Pending.takes, hhead, InRange] using hb

/-! ### Reading byte after byte -/

/-- What bytes show, and what is under way after them. -/
def read (pending : Option Pending) : List UInt8 → List Char × Option Pending
  | [] => ([], pending)
  | b :: bs =>
    let (cs, next) := step pending b.toNat
    let (more, last) := read next bs
    (cs ++ more, last)

theorem read_append (pending : Option Pending) (bs bs' : List UInt8) :
    read pending (bs ++ bs') = ((read pending bs).1 ++ (read (read pending bs).2 bs').1,
      (read (read pending bs).2 bs').2) := by
  induction bs generalizing pending with
  | nil => rfl
  | cons b bs ih => simp only [List.cons_append, read, ih, List.append_assoc]

theorem decode_cons (pending : Option Pending) (b : UInt8) (bs : List UInt8) :
    decode pending (b :: bs) =
      (step pending b.toNat).1 ++ decode (step pending b.toNat).2 bs :=
  rfl

theorem decode_append (pending : Option Pending) (bs bs' : List UInt8) :
    decode pending (bs ++ bs') = (read pending bs).1 ++ decode (read pending bs).2 bs' := by
  induction bs generalizing pending with
  | nil => rfl
  | cons b bs ih => simp only [List.cons_append, decode, read, ih, List.append_assoc]

theorem reveal_stray {c : Char} (h : isStray c = true) (pending : Option Pending) (cs : List Char) :
    reveal pending (c :: cs) = (step pending (strayByte c).toNat).1 ++
      reveal (step pending (strayByte c).toNat).2 cs := by
  rw [reveal, if_pos h]

theorem reveal_plain {c : Char} (h : isStray c = false) (pending : Option Pending)
    (cs : List Char) :
    reveal pending (c :: cs) = reveal pending [] ++ c :: reveal none cs := by
  simp only [reveal, h, Bool.false_eq_true, if_false]

/-- Stray bytes are read like others. -/
theorem reveal_append (hbs : ∀ b ∈ bs, 128 ≤ b.toNat) (pending : Option Pending)
    (cs : List Char) :
    reveal pending (bs.map stray ++ cs) =
      (read pending bs).1 ++ reveal (read pending bs).2 cs := by
  induction bs generalizing pending with
  | nil => rfl
  | cons b bs ih =>
      obtain ⟨hb, hbs⟩ := List.forall_mem_cons.1 hbs
      rw [List.map_cons, List.cons_append, reveal_stray (isStray_stray hb), strayByte_stray,
        ih hbs, read, List.append_assoc]

/-- The bytes of a character under way show nothing; the first of them ends what was under way
before. -/
theorem Held.read_eq {before : Option Pending} (h : Held held (some p))
    (hbefore : ∀ b ∈ held.head?, Rejects before b) :
    read before held = (decode before [], some p) := by
  generalize hpending : some p = pending at h
  induction h generalizing p with
  | nothing => exact absurd hpending (Option.some_ne_none p)
  | @first b q hq =>
      obtain rfl := Option.some.inj hpending
      simp only [read, (hbefore b rfl).step, hq.start_eq, List.append_nil]
  | @next held bits range more due b h hb ih =>
      obtain rfl := Option.some.inj hpending
      have hhead : ∀ b ∈ held.head?, Rejects before b :=
        fun b' hb' => hbefore b' (List.mem_head?_append_of_mem_head? hb')
      have hstep : step (some ⟨bits, range :: more :: due⟩) b.toNat = _ := if_pos hb
      rw [read_append, ih hhead rfl]
      simp only [read, hstep, List.isEmpty_cons, Bool.false_eq_true, if_false, List.append_nil]

/-- The byte that completes a character shows it. -/
theorem Held.decode_last {before : Option Pending} {c : Char} (h : Held held (some p))
    (hbefore : ∀ b ∈ held.head?, Rejects before b) (hstep : step (some p) b.toNat = ([c], none))
    (bs : List UInt8) :
    decode before (held ++ b :: bs) = decode before [] ++ c :: decode none bs := by
  rw [decode_append, h.read_eq hbefore, decode_cons, hstep]
  rfl

/-! ### Bytes that are kept -/

/-- A complete character is kept, unless it stands for a stray byte. -/
theorem kept_of_encode {c : Char} (hread : decode none held = [c])
    (hencode : String.utf8EncodeChar c = held) :
    kept held = if isStray c then held.map stray else [c] := by
  have hlength : (c == replacement && decide (held.length < 3)) = false := by
    rw [Bool.and_eq_false_iff, beq_eq_false_iff_ne, decide_eq_false_iff_not]
    by_cases hc : c = replacement
    · subst hc hencode
      exact .inr (by decide)
    · exact .inl hc
  rw [kept, hread]
  simp only [hlength, Bool.false_or]

/-- A byte outside a character is one, is stray, or leads to one. -/
theorem keep_cons (b : UInt8) (bs : List UInt8) :
    (∃ c, isStray c = false ∧ String.utf8EncodeChar c = [b] ∧ start b.toNat = ([c], none) ∧
        keep [] none (b :: bs) = c :: keep [] none bs) ∨
      (128 ≤ b.toNat ∧ start b.toNat = ([replacement], none) ∧
        keep [] none (b :: bs) = stray b :: keep [] none bs) ∨
      ∃ p, Leads b.toNat p ∧ keep [] none (b :: bs) = keep [b] (some p) bs := by
  have hkeep : keep [] none (b :: bs) = if (start b.toNat).2.isSome then
      keep [b] (start b.toNat).2 bs else kept [b] ++ keep [] none bs := rfl
  have hread : decode none [b] = (start b.toNat).1 ++ decode (start b.toNat).2 [] := rfl
  rcases start_cases b.toNat with ⟨hb, hstart⟩ | ⟨hb, hstart⟩ | ⟨p, hp, hstart⟩
  · have hval : (Char.ofNat b.toNat).val.toNat = b.toNat := toNat_ofNat (.inl (by omega))
    have hencode : String.utf8EncodeChar (Char.ofNat b.toNat) = [b] := by
      rw [String.utf8EncodeChar, hval, if_pos (by omega), UInt8.ofNat_toNat]
    have hplain : isStray (Char.ofNat b.toNat) = false :=
      decide_eq_false (by rw [Char.toNat, hval]; omega)
    refine .inl ⟨_, hplain, hencode, hstart, ?_⟩
    rw [hstart] at hread
    rw [hkeep, hstart, kept_of_encode hread hencode, hplain]
    rfl
  · refine .inr (.inl ⟨hb, hstart, ?_⟩)
    rw [hstart] at hread
    rw [hkeep, hstart, kept, hread]
    rfl
  · refine .inr (.inr ⟨p, hp, ?_⟩)
    rw [hkeep, hstart]
    rfl

theorem Rejects.keep_eq (h : Rejects pending b) (held bs : List UInt8) :
    keep held pending (b :: bs) = held.map stray ++ keep [] none (b :: bs) := by
  rw [keep, keep, h.not_takes, h.step]
  rfl

theorem keep_more {next : Pending} (htakes : pending.any (·.takes b) = true)
    (hstep : step pending b.toNat = ([], some next)) (held bs : List UInt8) :
    keep held pending (b :: bs) = keep (held ++ [b]) (some next) bs := by
  rw [keep, htakes, hstep]
  rfl

/-- A byte that completes a character. -/
theorem Held.keep_last {c : Char} (h : Held held pending)
    (htakes : pending.any (·.takes b) = true) (hstep : step pending b.toNat = ([c], none))
    (hencode : String.utf8EncodeChar c = held ++ [b]) (bs : List UInt8) :
    keep held pending (b :: bs) =
      (if isStray c then (held ++ [b]).map stray else [c]) ++ keep [] none bs := by
  cases pending with
  | none => exact absurd htakes Bool.false_ne_true
  | some p =>
      have hread : decode none (held ++ [b]) = [c] :=
        h.decode_last (fun b _ => rejects_none b) hstep []
      rw [← kept_of_encode hread hencode, keep, htakes, hstep]
      rfl

/-- The bytes of stray ones. -/
theorem rawBytesOf_stray (hbs : ∀ b ∈ bs, 128 ≤ b.toNat) :
    (bs.map stray).flatMap rawBytesOf = bs := by
  induction bs with
  | nil => rfl
  | cons b bs ih =>
      obtain ⟨hb, hbs⟩ := List.forall_mem_cons.1 hbs
      rw [List.map_cons, List.flatMap_cons, ih hbs, rawBytesOf, if_pos (isStray_stray hb),
        strayByte_stray, List.singleton_append]

theorem rawBytesOf_plain {c : Char} (h : isStray c = false) :
    rawBytesOf c = String.utf8EncodeChar c := by
  rw [rawBytesOf, h, if_neg Bool.false_ne_true]

/-- No byte is lost, whatever is under way. -/
theorem rawBytesOf_keep (h : Held held pending) (bs : List UInt8) :
    (keep held pending bs).flatMap rawBytesOf = held ++ bs := by
  induction bs generalizing held pending with
  | nil => rw [keep, rawBytesOf_stray h.ge, List.append_nil]
  | cons b bs ih =>
      rcases h.meets b with hb | ⟨htakes, hge, ⟨next, hstep, hnext⟩ | ⟨c, hstep, hencode⟩⟩
      · rw [hb.keep_eq, List.flatMap_append, rawBytesOf_stray h.ge]
        refine congrArg (held ++ ·) ?_
        rcases keep_cons b bs with ⟨c, hc, hencode, -, heq⟩ | ⟨hhigh, -, heq⟩ | ⟨p, hp, heq⟩
        · rw [heq, List.flatMap_cons, ih .nothing, rawBytesOf_plain hc, hencode]
          rfl
        · rw [heq, List.flatMap_cons, ih .nothing, rawBytesOf, if_pos (isStray_stray hhigh),
            strayByte_stray]
          rfl
        · rw [heq, ih (.first hp)]
          rfl
      · rw [keep_more htakes hstep, ih hnext, List.append_assoc, List.singleton_append]
      · have hkept : (if isStray c then (held ++ [b]).map stray else [c]).flatMap rawBytesOf =
            held ++ [b] := by
          split
          case isTrue => exact rawBytesOf_stray (h.ge_append hge)
          case isFalse hc =>
            rw [List.flatMap_singleton, rawBytesOf_plain (Bool.eq_false_iff.2 hc), hencode]
        rw [h.keep_last htakes hstep hencode, List.flatMap_append, ih .nothing, hkept,
          List.append_assoc]
        rfl

/-- Bytes are shown like output of a program, whatever is under way. What was under way before them
is ended by the first of them. -/
theorem reveal_keep {before : Option Pending} (h : Held held pending) (bs : List UInt8)
    (hbefore : ∀ b ∈ (held ++ bs).head?, Rejects before b) :
    reveal before (keep held pending bs) = decode before (held ++ bs) := by
  have hflush : ∀ pending : Option Pending, reveal pending [] = decode pending [] := fun _ => rfl
  induction bs generalizing held pending before with
  | nil =>
      rw [keep, ← List.append_nil (held.map stray), reveal_append h.ge, decode_append, hflush]
  | cons b bs ih =>
      rcases h.meets b with hb | ⟨htakes, hge, ⟨next, hstep, hnext⟩ | ⟨c, hstep, hencode⟩⟩
      · rw [hb.keep_eq, reveal_append h.ge, decode_append]
        refine congrArg ((read before held).1 ++ ·) ?_
        -- the byte does not belong to what is under way now
        have hnow : Rejects (read before held).2 b := by
          cases pending with
          | none =>
              cases h
              exact hbefore b rfl
          | some p =>
              rw [h.read_eq fun x hx => hbefore x (List.mem_head?_append_of_mem_head? hx)]
              exact hb
        generalize (read before held).2 = now at hnow
        have hnil : ∀ x ∈ ([] ++ bs).head?, Rejects none x := fun x _ => rejects_none x
        rcases keep_cons b bs with ⟨c, hc, -, hstart, heq⟩ | ⟨hhigh, hstart, heq⟩ | ⟨p, hp, heq⟩
        · rw [heq, reveal_plain hc, ih .nothing hnil, decode_cons, hnow.step, hstart, hflush,
            List.append_assoc]
          rfl
        · rw [heq, reveal_stray (isStray_stray hhigh), strayByte_stray, decode_cons, hnow.step,
            hstart, ih .nothing hnil]
          rfl
        · rw [heq]
          refine ih (.first hp) fun x hx => ?_
          obtain rfl := Option.some.inj hx
          exact hnow
      · rw [keep_more htakes hstep, ih hnext (by simpa using hbefore), List.append_assoc,
          List.singleton_append]
      · cases pending with
        | none => exact absurd htakes Bool.false_ne_true
        | some p =>
            have hhead : ∀ x ∈ held.head?, Rejects before x :=
              fun x hx => hbefore x (List.mem_head?_append_of_mem_head? hx)
            have hrest : reveal none (keep [] none bs) = decode none bs :=
              ih .nothing fun x _ => rejects_none x
            rw [h.keep_last htakes hstep hencode, h.decode_last hhead hstep]
            split
            case isTrue =>
              rw [reveal_append (h.ge_append hge), read_append, h.read_eq hhead]
              simp only [read, hstep, hrest, List.append_nil, List.append_assoc,
                List.singleton_append]
            case isFalse hc =>
              rw [List.singleton_append, reveal_plain (Bool.eq_false_iff.2 hc), hrest, hflush]

theorem reveal_of_text {cs : List Char} (h : ∀ c ∈ cs, isStray c = false) :
    reveal none cs = cs := by
  induction cs with
  | nil => rfl
  | cons c cs ih =>
      obtain ⟨hc, hcs⟩ := List.forall_mem_cons.1 h
      rw [reveal_plain hc, ih hcs]
      rfl

end Utf8

/-! ### Shown texts -/

/-- What has no stray bytes is shown as it is. -/
theorem shown_of_text {s : String} (h : ∀ c ∈ s.toList, isStray c = false) : shown s = s := by
  rw [shown, if_neg]
  simpa using h

theorem toList_shown (s : String) : (shown s).toList = Utf8.reveal none s.toList := by
  rw [shown]
  split
  case isTrue => exact String.toList_ofList
  case isFalse h => exact (Utf8.reveal_of_text (by simpa using h)).symm

/-- **No byte is lost.** -/
theorem rawBytes_ofBytes (bs : List UInt8) : rawBytes (ofBytes bs) = bs := by
  rw [rawBytes, ofBytes, String.toList_ofList]
  exact Utf8.rawBytesOf_keep .nothing bs

/-- **Bytes are shown like output of a program.** -/
theorem shown_ofBytes (bs : List UInt8) : shown (ofBytes bs) = decodeLossy bs := by
  refine String.toList_inj.1 ?_
  rw [toList_shown, ofBytes, decodeLossy, String.toList_ofList, String.toList_ofList]
  exact Utf8.reveal_keep .nothing bs fun b _ => Utf8.rejects_none b

end EnvDiscovery.Text
