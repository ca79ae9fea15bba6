import EnvDiscovery.Environment.Codec
import EnvDiscovery.Proofs.JsonText

/-!
**What is encoded is decoded.**

A record is written as an object with one field for each of its parts and read by the names of the
fields. Every encoding is also exact, so that nothing is lost when it is kept as a text.

Main results:
* `Json.optional_ofOption` — parts that may be missing;
* `Version.ofJson?_toJson`, `InterpreterInfo.ofJson?_toJson` — **decoding undoes encoding**;
* `Version.exact_toJson`, `InterpreterInfo.exact_toJson` — the encodings are exact.
-/

namespace EnvDiscovery

/-! ### Fields -/

namespace Json

@[simp] theorem inObject_cons_self (name : String) (v : Json) (fields : List (String × Json)) :
    inObject ((name, v) :: fields) name = .value v := by
  simp [inObject]

@[simp] theorem inObject_cons_ne {name other : String} (h : name ≠ other) (v : Json)
    (fields : List (String × Json)) :
    inObject ((other, v) :: fields) name = inObject fields name := by
  have hne : (name == other) = false := by simpa using h
  simp [inObject, List.lookup_cons, hne]

@[simp] theorem asRecord?_obj (count : Nat) (fields : List (String × Json)) :
    asRecord? count (.obj fields) = some ⟨fun name _ => inObject fields name⟩ := rfl

@[simp] theorem required_value {α : Type} (decode : Json → Option α) (v : Json) :
    required decode (.value v) = decode v := rfl

@[simp] theorem asString?_str (s : String) : asString? (.str s) = some s := rfl

/-- A part that may be missing is decoded if no value of it is encoded as null. -/
theorem optional_ofOption {α : Type} {encode : α → Json} {decode : Json → Option α}
    (hdecode : ∀ a, decode (encode a) = some a) (hnull : ∀ a, encode a ≠ .null) (o : Option α) :
    optional decode (.value (ofOption encode o)) = some o := by
  cases o with
  | none => rfl
  | some a =>
      rw [ofOption, optional, nullable]
      · rw [hdecode, Option.map_some]
      · exact hnull a

theorem exact_ofOption {α : Type} {encode : α → Json} {depth : Nat}
    (h : ∀ a, Exact depth (encode a)) (o : Option α) : Exact depth (ofOption encode o) := by
  cases o with
  | none => exact .null
  | some a => exact h a

@[simp] theorem asUInt32?_ofUInt32 (n : UInt32) : asUInt32? (ofUInt32 n) = some n := by
  have hn : n.toNat < UInt32.size := n.toNat_lt_size
  simp [asUInt32?, asNatBelow?, ofUInt32, hn]

theorem exact_ofUInt32 {depth : Nat} (n : UInt32) : Exact depth (ofUInt32 n) := by
  have hn : n.toNat < 4294967296 := n.toNat_lt
  exact .int (by omega) (by omega)

end Json

@[simp] theorem Path.ofJson?_toJson (p : Path) : Path.ofJson? p.toJson = some p := rfl

/-! ### Versions -/

theorem ReleaseLevel.asName?_name (l : ReleaseLevel) :
    Json.asName? all name (.str l.name) = some l := by
  cases l <;> decide

@[simp] theorem Release.ofJson?_toJson (r : Release) : Release.ofJson? r.toJson = some r := by
  simp [Release.ofJson?, Release.toJson, ReleaseLevel.asName?_name]

theorem Release.exact_toJson (r : Release) : Json.Exact 1 r.toJson := by
  refine .obj ?_ (by simp)
  simp [Json.exact_ofUInt32, Json.Exact.str]

/-- **Versions are decoded as they are encoded.** -/
@[simp] theorem Version.ofJson?_toJson (v : Version) : Version.ofJson? v.toJson = some v := by
  have hnumber := Json.optional_ofOption Json.asUInt32?_ofUInt32 (by simp [Json.ofUInt32])
  have hrelease := Json.optional_ofOption Release.ofJson?_toJson (by simp [Release.toJson])
  have htext := Json.optional_ofOption Json.asString?_str (by simp)
  simp [Version.ofJson?, Version.toJson, hnumber, hrelease, htext]

theorem Version.exact_toJson (v : Version) : Json.Exact 2 v.toJson := by
  refine .obj ?_ (by simp)
  simp [Json.exact_ofOption Json.exact_ofUInt32, Json.exact_ofOption Release.exact_toJson,
    Json.exact_ofOption (fun _ => Json.Exact.str)]

/-! ### Interpreters -/

theorem Architecture.ofJson?_name (a : Architecture) :
    Architecture.ofJson? (.str a.name) = some a := by
  cases a <;> decide

/-- **What an interpreter said is decoded as it was encoded.** -/
@[simp] theorem InterpreterInfo.ofJson?_toJson (i : InterpreterInfo) :
    InterpreterInfo.ofJson? i.toJson = some i := by
  simp [InterpreterInfo.ofJson?, InterpreterInfo.toJson, Architecture.ofJson?_name]

theorem InterpreterInfo.exact_toJson (i : InterpreterInfo) : Json.Exact 3 i.toJson := by
  refine .obj ?_ (by simp)
  simp [Path.toJson, Json.Exact.str, Version.exact_toJson]

end EnvDiscovery
