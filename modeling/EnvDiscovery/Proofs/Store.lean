import EnvDiscovery.Proofs.Codec
import EnvDiscovery.Proofs.DateText
import EnvDiscovery.Store.Scoped

/-!
**What a store holds after a write.**

A write changes a store at one key at most, and what it leaves there is read back: the value itself,
or its text, which says all about an exact value. The same holds of values in envelopes, whose times
are kept as texts.

Main definitions:
* `Store.SameExcept` — two stores that differ at one key at most;
* `Store.Holds` — a value under a key, whichever way it is kept;
* `Store.Form.Lawful` — forms that are decoded as they are encoded.

Main results:
* `Store.update_spec`, `Store.remove_spec` — **one write**, its place and its frame;
* `Store.Envelope.ofJson?_toJson` — envelopes are decoded as they are encoded;
* `Store.Scope.read_of_holds` — the value of a scope whose envelope is held.
-/

namespace EnvDiscovery

/-! ### Entries under other keys, and the last of a kind -/

theorem getLast?_filter_concat {α : Type*} (p : α → Bool) (l : List α) (a : α) :
    ((l ++ [a]).filter p).getLast? = if p a then some a else (l.filter p).getLast? := by
  rw [List.filter_append]
  cases h : p a with
  | true => simp [h]
  | false => simp [h]

section Entries

variable {κ α : Type} [BEq κ] [LawfulBEq κ]

theorem lookup_filter_ne {key other : κ} (h : other ≠ key) (entries : List (κ × α)) :
    (entries.filter (·.1 != key)).lookup other = entries.lookup other := by
  induction entries with
  | nil => rfl
  | cons p entries ih =>
      obtain ⟨k, e⟩ := p
      by_cases hk : k = key
      · subst hk
        have hne : (other == k) = false := by simpa using h
        simp [List.lookup_cons, hne, ih]
      · simp [hk, List.lookup_cons, ih]

theorem lookup_filter_self (key : κ) (entries : List (κ × α)) :
    (entries.filter (·.1 != key)).lookup key = none := by
  induction entries with
  | nil => rfl
  | cons p entries ih =>
      obtain ⟨k, e⟩ := p
      by_cases hk : k = key
      · simpa [hk] using ih
      · have hne : (key == k) = false := by simpa using Ne.symm hk
        simp [hk, List.lookup_cons, hne, ih]

end Entries

namespace Store

/-! ### One key and the others -/

theorem lookup_put_self (key : String) (e : Entry) (entries : List (String × Entry)) :
    (put key e entries).lookup key = some e := by
  induction entries with
  | nil => simp [put]
  | cons p entries ih =>
      obtain ⟨k, old⟩ := p
      rw [put]
      split
      case isTrue h => simp [h]
      case isFalse h =>
        have hne : (key == k) = false := by simpa using Ne.symm h
        rw [List.lookup_cons, hne]
        exact ih

theorem filter_put (key : String) (e : Entry) (entries : List (String × Entry)) :
    (put key e entries).filter (·.1 != key) = entries.filter (·.1 != key) := by
  induction entries with
  | nil => simp [put]
  | cons p entries ih =>
      obtain ⟨k, old⟩ := p
      rw [put]
      split
      case isTrue h => simp [h]
      case isFalse h => simp [h, ih]

/-- The two stores are of one kind and differ under the key at most. -/
structure SameExcept (key : String) (s t : Store) : Prop where
  asText_eq : t.asText = s.asText
  readable_eq : t.readable = s.readable
  writable_eq : t.writable = s.writable
  others_eq : t.entries.filter (·.1 != key) = s.entries.filter (·.1 != key)

theorem SameExcept.refl (key : String) (s : Store) : SameExcept key s s := ⟨rfl, rfl, rfl, rfl⟩

/-- Under another key the two stores hold the same. -/
theorem SameExcept.lookup_eq {key other : String} {s t : Store} (h : SameExcept key s t)
    (hne : other ≠ key) :
    t.entries.lookup other = s.entries.lookup other := by
  rw [← lookup_filter_ne hne t.entries, h.others_eq, lookup_filter_ne hne]

theorem SameExcept.get_eq {key other : String} {s t : Store} (h : SameExcept key s t)
    (hne : other ≠ key) :
    t.get other = s.get other := by
  rw [Store.get, Store.get, h.readable_eq, h.lookup_eq hne]

/-- What the second store gives under any key, if it gives the answer under the one. -/
theorem SameExcept.get_cases {key : String} {s t : Store} (h : SameExcept key s t)
    {answer : Except StorageFailure (Option Json)} (hanswer : t.get key = answer) (other : String) :
    t.get other = if key == other then answer else s.get other := by
  by_cases hother : key = other
  · subst hother
    simpa using hanswer
  · simpa [hother] using h.get_eq (Ne.symm hother)

/-! ### Writes -/

/-- The store has the value under the key, as it is or as a text. -/
def Holds (s : Store) (key : String) (v : Json) : Prop :=
  ∃ e, s.entries.lookup key = some e ∧ valueOf key e = .ok v

theorem Holds.get {s : Store} {key : String} {v : Json} (h : s.Holds key v)
    (hread : s.readable = true) :
    s.get key = .ok (some v) := by
  obtain ⟨e, hlookup, hvalue⟩ := h
  rw [Store.get, hread, if_neg (by decide), hlookup]
  simp [hvalue, Except.map]

/-- **Writing a value** that is read from its text leaves it under its key and leaves everything
else alone. -/
theorem update_spec {s : Store} (hwrite : s.writable = true) (key : String) {v : Json}
    (hv : Json.parse? v.render = some v) :
    ∃ t, s.update key v = .ok t ∧ SameExcept key s t ∧ t.Holds key v := by
  refine ⟨{ s with entries := put key (if s.asText then .text v.render else .value v) s.entries },
    by simp [update, hwrite], ⟨rfl, rfl, rfl, filter_put _ _ _⟩, _, lookup_put_self _ _ _, ?_⟩
  -- kept as it is, or as a text that is read back
  cases s.asText with
  | true => simp [valueOf, hv]
  | false => simp [valueOf]

/-- **Removing a key** leaves nothing under it and leaves everything else alone. -/
theorem remove_spec {s : Store} (hwrite : s.writable = true) (key : String) :
    ∃ t, s.remove key = .ok t ∧ SameExcept key s t ∧ t.entries.lookup key = none := by
  refine ⟨{ s with entries := s.entries.filter (·.1 != key) }, by simp [remove, hwrite],
    ⟨rfl, rfl, rfl, ?_⟩, lookup_filter_self _ _⟩
  simp [List.filter_filter]

/-! ### Envelopes -/

/-- Values of the form are decoded as they are encoded, and their encodings are exact. -/
structure Form.Lawful {α : Type} (form : Form α) : Prop where
  decode_encode : ∀ a, form.decode (.value (form.encode a)) = some a
  exact_encode : ∀ a, Json.Exact 126 (form.encode a)

theorem Form.lawful_option {α : Type} {encode : α → Json} {decode : Json → Option α}
    (hdecode : ∀ a, decode (encode a) = some a) (hnull : ∀ a, encode a ≠ .null)
    (hexact : ∀ a, Json.Exact 126 (encode a)) : (Form.option encode decode).Lawful where
  decode_encode := Json.optional_ofOption hdecode hnull
  exact_encode := Json.exact_ofOption hexact

section Envelope

variable {α : Type} {form : Form α}

theorem Envelope.ofJson?_toJson {e : Envelope α}
    (hvalue : form.decode (.value (form.encode e.value)) = some e.value)
    (hcreated : DateText.Readable e.created) : Envelope.ofJson? form (e.toJson form) = some e := by
  simp [Envelope.ofJson?, Envelope.toJson, hvalue, DateText.parse_render hcreated]

theorem Envelope.exact_toJson (hform : form.Lawful) (e : Envelope α) :
    Json.Exact 127 (e.toJson form) := by
  refine .obj ?_ (by simp)
  simp [hform.exact_encode, Json.Exact.str]

/-- The age of an envelope counts up to the expiry, if that is no longer than the longest span. -/
theorem isExpired_iff {expiry : Duration} (hspan : expiry.totalNanos ≤ longestSpan)
    {now : Timestamp} {e : Envelope α} :
    isExpired (some expiry) now e = true ↔
      (expiry.totalNanos : Int) ≤ nanosBetween e.created now := by
  simp [isExpired, maxAge, hspan]

/-- **The value of a scope** is that of the envelope it holds, until that expires. -/
theorem Scope.read_of_holds {c : Scope α} (hform : c.form.Lawful) {s : Store}
    (hread : s.readable = true) {e : Envelope α} (hcreated : DateText.Readable e.created)
    (h : s.Holds c.key (e.toJson c.form)) (now : Timestamp) :
    c.read s now = if isExpired c.expiry now e then c.default else e.value := by
  simp only [Scope.read, h.get hread,
    Envelope.ofJson?_toJson (hform.decode_encode e.value) hcreated]

/-- Whatever envelope is read back, its value is the one that was kept. -/
theorem Envelope.value_of_ofJson? (hform : form.Lawful) {e e' : Envelope α}
    (h : Envelope.ofJson? form (e.toJson form) = some e') : e'.value = e.value := by
  simp only [Envelope.ofJson?, Envelope.toJson, Json.asRecord?_obj, Option.bind_eq_bind,
    Option.bind_some] at h
  obtain ⟨value, hvalue, h⟩ := Option.bind_eq_some_iff.1 h
  obtain ⟨created, -, h⟩ := Option.bind_eq_some_iff.1 h
  obtain rfl : ⟨value, created⟩ = e' := Option.some.inj h
  have hkept : form.decode (.value (form.encode e.value)) = some value := by simpa using hvalue
  rw [hform.decode_encode, Option.some_inj] at hkept
  exact hkept.symm

/-- A scope reads its default or the value it holds, whether or not the time of the envelope can be
read. -/
theorem Scope.read_eq_or {c : Scope α} (hform : c.form.Lawful) {s : Store} {e : Envelope α}
    (h : s.Holds c.key (e.toJson c.form)) (now : Timestamp) :
    c.read s now = c.default ∨ c.read s now = e.value := by
  cases hread : s.readable with
  | false =>
      have herror : s.get c.key = .error outOfOrder := by simp [Store.get, hread]
      exact .inl (by simp only [Scope.read, herror])
  | true =>
      simp only [Scope.read, h.get hread]
      cases henvelope : Envelope.ofJson? c.form (e.toJson c.form) with
      | none => exact .inl rfl
      | some e' =>
          cases hexpired : isExpired c.expiry now e' with
          | true => exact .inl (by simp [hexpired])
          | false => exact .inr (by simp [hexpired, Envelope.value_of_ofJson? hform henvelope])

/-- A scope does not depend on what is held under other keys. -/
theorem Scope.read_congr {c : Scope α} {key : String} {s t : Store} (h : SameExcept key s t)
    (hne : c.key ≠ key) (now : Timestamp) : c.read t now = c.read s now := by
  rw [Scope.read, Scope.read, h.get_eq hne]

theorem Scope.read_of_lookup_none {c : Scope α} {s : Store} (h : s.entries.lookup c.key = none)
    (now : Timestamp) : c.read s now = c.default := by
  unfold Scope.read Store.get
  cases s.readable <;> simp [h]

end Envelope

end Store

end EnvDiscovery
