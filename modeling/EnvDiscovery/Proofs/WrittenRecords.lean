import EnvDiscovery.Json.Record
import EnvDiscovery.Proofs.Codec
import Mathlib.Data.List.Basic

/-!
**What a written record holds.**

A record is written as an object, whose fields go by name, or as an array, whose fields go by place.
A field that the reader knows may be given once. These laws say what the reader finds, in terms of
the parts that the text gives for a field.

Main definitions:
* `Json.Written.partsFor` — the parts that a written form gives for a field;
* `Json.Written.IsRecord` — objects with legible names, and arrays that are not too long;
* `Json.Written.Holds` — a field is given once, with a value.

Main results:
* `Json.Written.asRecord?_spec`, `Json.Written.exists_asRecord?` — what is read as a record;
* `Json.required_find_iff`, `Json.defaulted_find_iff` — **what is found for a field**;
* `Json.asUInt32?_eq_some_iff` — a number that is read is the number that is written.
-/

namespace EnvDiscovery.Json

namespace Written

/-- The parts that a written form gives for a field: in an object those under its name, in an array
the one at its place. -/
def partsFor (name : String) (place : Nat) : Written → List Written
  | .record fields => (fields.filter fun f => stringOf? f.1 == some name).map Prod.snd
  | .list items => items[place]?.toList
  | _ => []

/-- Whether a written form is an object. -/
def isObject : Written → Bool
  | .record _ => true
  | _ => false

/-- An object all of whose names are texts, or an array of at most `count` items. -/
def IsRecord (count : Nat) : Written → Prop
  | .record fields => ∀ f ∈ fields, (stringOf? f.1).isSome = true
  | .list items => items.length ≤ count
  | _ => False

/-- What is found for a field that a written form does not give. -/
def absent : Written → Found
  | .record _ => .omitted
  | _ => .short

/-- A written form gives a field once, and the part it gives has the given value. -/
def Holds (w : Written) (name : String) (place : Nat) (v : Json) : Prop :=
  ∃ part, w.partsFor name place = [part] ∧ part.eval? (depthLimit - 1) = some v

end Written

section Names

variable {fields : List (List Piece × Written)} {names : List String} {name : String}

theorem map_of_mapM_names (h : (fields.mapM fun f => stringOf? f.1) = some names) :
    fields.map (fun f => stringOf? f.1) = names.map some := by
  induction fields generalizing names with
  | nil =>
      obtain rfl : names = [] := by simpa [eq_comm] using h
      rfl
  | cons f fields ih =>
      rw [List.mapM_cons] at h
      obtain ⟨s, hs, h⟩ := Option.bind_eq_some_iff.1 h
      obtain ⟨rest, hrest, h⟩ := Option.bind_eq_some_iff.1 h
      obtain rfl : s :: rest = names := Option.some_inj.1 h
      rw [List.map_cons, List.map_cons, ih hrest, hs]

theorem exists_mapM_names (h : ∀ f ∈ fields, (stringOf? f.1).isSome = true) :
    ∃ names, (fields.mapM fun f => stringOf? f.1) = some names := by
  induction fields with
  | nil => exact ⟨[], rfl⟩
  | cons f fields ih =>
      obtain ⟨s, hs⟩ := Option.isSome_iff_exists.1 (h f List.mem_cons_self)
      obtain ⟨rest, hrest⟩ := ih fun g hg => h g (List.mem_cons_of_mem _ hg)
      exact ⟨s :: rest, by rw [List.mapM_cons, hs, hrest]; rfl⟩

/-- What stands under a name when the names are read one by one. -/
theorem lookup_names (h : fields.map (fun f => stringOf? f.1) = names.map some) :
    (names.zip (fields.map Prod.snd)).lookup name =
      ((Written.record fields).partsFor name 0).head? ∧
    names.count name = ((Written.record fields).partsFor name 0).length := by
  induction fields generalizing names with
  | nil =>
      cases names with
      | nil => exact ⟨rfl, rfl⟩
      | cons n names => cases h
  | cons f fields ih =>
      cases names with
      | nil => cases h
      | cons n names =>
          obtain ⟨hn, hnames⟩ : stringOf? f.1 = some n ∧ _ := List.cons.inj h
          obtain ⟨hlookup, hcount⟩ := ih hnames
          rw [Written.partsFor] at hlookup hcount ⊢
          rw [List.map_cons, List.zip_cons_cons, List.lookup_cons, List.count_cons,
            List.filter_cons, hn]
          by_cases heq : n = name
          · simp [heq, hcount]
          · have hne : (name == n) = false := beq_eq_false_iff_ne.2 (Ne.symm heq)
            simp [heq, hne, hlookup, hcount]

end Names

namespace Written

variable {known : List String} {w : Written} {r : Fields}

theorem length_partsFor_list (items : List Written) (name : String) (place : Nat) :
    ((list items).partsFor name place).length ≤ 1 := by
  rw [partsFor]
  cases items[place]? <;> simp

/-- Whether a field is given twice is not a matter of its place. -/
theorem length_partsFor_le {name : String} {place : Nat} (h : (w.partsFor name place).length ≤ 1)
    (other : Nat) :
    (w.partsFor name other).length ≤ 1 := by
  cases w with
  | record fields => exact h
  | list items => exact length_partsFor_list items name other
  | _ => exact Nat.zero_le _

theorem Holds.length_le {name : String} {place : Nat} {v : Json} (h : w.Holds name place v) :
    (w.partsFor name place).length ≤ 1 := by
  obtain ⟨part, hpart, -⟩ := h
  rw [hpart, List.length_singleton]

/-- What is read as a record gives no known field twice, and what is found for a field is the part
given for it. -/
theorem asRecord?_spec (h : w.asRecord? known = some r) :
    w.IsRecord known.length ∧ (∀ name ∈ known, ∀ place, (w.partsFor name place).length ≤ 1) ∧
    ∀ name place, r.find name place = ((w.partsFor name place).head?.map foundOf).getD
      w.absent := by
  cases w with
  | record fields =>
      obtain ⟨names, hnames, h⟩ := Option.bind_eq_some_iff.1 h
      have hmap := map_of_mapM_names hnames
      have hlegible : ∀ f ∈ fields, (stringOf? f.1).isSome = true := by
        intro f hf
        have hmem : stringOf? f.1 ∈ names.map some := hmap ▸ List.mem_map_of_mem hf
        obtain ⟨s, -, hs⟩ := List.mem_map.1 hmem
        rw [← hs]
        rfl
      split at h
      case isTrue => cases h
      case isFalse hcount =>
        obtain rfl := Option.some_inj.1 h
        refine ⟨hlegible, ?_, ?_⟩
        · intro name hname place
          rw [show partsFor name place (.record fields) = partsFor name 0 (.record fields) from rfl,
            ← (lookup_names hmap).2]
          by_contra hmany
          exact hcount (List.any_eq_true.2 ⟨name, hname, by simpa using hmany⟩)
        · intro name place
          rw [show partsFor name place (.record fields) = partsFor name 0 (.record fields) from rfl,
            ← (lookup_names hmap).1]
          dsimp only
          cases (names.zip (fields.map Prod.snd)).lookup name <;> rfl
  | list items =>
      rw [asRecord?] at h
      split at h
      case isTrue hlength =>
        obtain rfl := Option.some_inj.1 h
        refine ⟨hlength, fun name _ => length_partsFor_list items name, ?_⟩
        intro name place
        rw [partsFor]
        dsimp only
        cases items[place]? <;> rfl
      case isFalse => cases h
  | _ => cases h

/-- An object that gives no known field twice, or an array that is not too long, is read as a
record. -/
theorem exists_asRecord? (hrecord : w.IsRecord known.length)
    (honce : ∀ name ∈ known, ∃ place, (w.partsFor name place).length ≤ 1) :
    ∃ r, w.asRecord? known = some r := by
  cases w with
  | record fields =>
      obtain ⟨names, hnames⟩ := exists_mapM_names hrecord
      have hcount : ¬ (known.any fun n => 1 < names.count n) = true := by
        rw [List.any_eq_true]
        rintro ⟨name, hname, hmany⟩
        obtain ⟨place, hplace⟩ := honce name hname
        have := length_partsFor_le hplace 0
        rw [← (lookup_names (map_of_mapM_names hnames)).2] at this
        simp at hmany
        omega
      exact ⟨_, Option.bind_eq_some_iff.2 ⟨names, hnames, if_neg hcount⟩⟩
  | list items => exact ⟨_, if_pos hrecord⟩
  | _ => exact hrecord.elim

end Written

section Find

variable {α : Type} {known : List String} {w : Written} {r : Fields} {name : String} {place : Nat}
  {decode : Json → Option α}
  {a default : α}

/-- What is found for a known field: nothing, something without a value, or the value that the
record holds. -/
theorem find_cases (hr : w.asRecord? known = some r) (hname : name ∈ known) (place : Nat) :
    (w.partsFor name place = [] ∧ r.find name place = w.absent) ∨
    ∃ part, w.partsFor name place = [part] ∧ r.find name place = foundOf part := by
  obtain ⟨-, honce, hfind⟩ := Written.asRecord?_spec hr
  have hone := honce name hname place
  rw [hfind]
  cases hparts : w.partsFor name place with
  | nil => exact .inl ⟨rfl, rfl⟩
  | cons part more =>
      rw [hparts, List.length_cons] at hone
      obtain rfl : more = [] := List.length_eq_zero_iff.1 (by omega)
      exact .inr ⟨part, rfl, rfl⟩

/-- **A field that must be there** is read from the value that the record holds for it. -/
theorem required_find_iff (hr : w.asRecord? known = some r) (hname : name ∈ known) :
    required decode (r.find name place) = some a ↔ ∃ v, w.Holds name place v ∧
    decode v = some a := by
  rcases find_cases hr hname place with ⟨hparts, hfind⟩ | ⟨part, hparts, hfind⟩
  · have hnone : required decode w.absent = none := by cases w <;> rfl
    simp [hfind, hnone, Written.Holds, hparts]
  · rw [hfind, foundOf]
    cases heval : part.eval? (depthLimit - 1) with
    | none => simp [required, Written.Holds, hparts, heval]
    | some v => simp [required, Written.Holds, hparts, heval]

/-- **A field that may be left out** is read in the same way, or has its default. -/
theorem defaulted_find_iff (hr : w.asRecord? known = some r) (hname : name ∈ known) :
    defaulted default decode (r.find name place) = some a ↔
      (w.partsFor name place = [] ∧ a = default) ∨ ∃ v, w.Holds name place v ∧
      decode v = some a := by
  rcases find_cases hr hname place with ⟨hparts, hfind⟩ | ⟨part, hparts, hfind⟩
  · have hdefault : defaulted default decode w.absent = some default := by cases w <;> rfl
    simp [hfind, hdefault, Written.Holds, hparts, eq_comm]
  · rw [hfind, foundOf]
    cases heval : part.eval? (depthLimit - 1) with
    | none => simp [defaulted, Written.Holds, hparts, heval]
    | some v => simp [defaulted, Written.Holds, hparts, heval]

end Find

/-! ### Plain values -/

section Plain

variable {v : Json}

theorem asString?_eq_some_iff {s : String} : v.asString? = some s ↔ v = .str s := by
  cases v <;> simp [asString?]

theorem asBool?_eq_some_iff {b : Bool} : v.asBool? = some b ↔ v = .bool b := by
  cases v <;> simp [asBool?]

theorem asList?_some_eq_some_iff {items : List Json} :
    v.asList? some = some items ↔ v = .arr items := by
  have hid : ∀ xs : List Json, xs.mapM some = some xs := by
    intro xs
    simpa using List.mapM_pure (m := Option) (f := id) (l := xs)
  cases v <;> simp [asList?, hid]

theorem asUInt32?_eq_some_iff {n : UInt32} : v.asUInt32? = some n ↔ v = ofUInt32 n := by
  constructor
  · intro h
    obtain ⟨k, hk, rfl⟩ := Option.map_eq_some_iff.1 h
    cases v with
    | int i =>
        rw [asNatBelow?] at hk
        split at hk
        case isTrue hi =>
          obtain rfl := Option.some_inj.1 hk
          rw [ofUInt32, UInt32.toNat_ofNat_of_lt' hi.2, Int.toNat_of_nonneg hi.1]
        case isFalse => cases hk
    | _ => cases hk
  · rintro rfl
    exact asUInt32?_ofUInt32 n

end Plain

end EnvDiscovery.Json
