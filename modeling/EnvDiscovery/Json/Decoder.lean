import EnvDiscovery.Json.Value

/-!
**Decoding records.**

A record is read from an object by the names of its fields, where unknown fields are passed over, or
from an array by their places, where every item must have a field. An optional field may be left out
of an object but not out of an array; a field with a default may be left out of both.

Main definitions:
* `Json.Found`, `Json.Fields` — the fields of a record as they were found;
* `Json.asRecord?` — the fields of a value;
* `Json.required`, `Json.optional`, `Json.defaulted` — reading one of them.
-/

namespace EnvDiscovery.Json

/-- What a record holds for one field: a value, something without a value, nothing in an object, or
nothing in an array that is too short. -/
inductive Found where
  | value (v : Json)
  | invalid
  | omitted
  | short

/-- The fields of a record, by name and by place. -/
structure Fields where
  find : String → Nat → Found

/-- The field of an object. -/
def inObject (fields : List (String × Json)) (name : String) : Found :=
  match fields.lookup name with
  | some v => .value v
  | none => .omitted

/-- The field at a place of an array. -/
def inArray (items : List Json) (place : Nat) : Found :=
  match items[place]? with
  | some v => .value v
  | none => .short

/-- The fields of a record of `count` fields. -/
def asRecord? (count : Nat) : Json → Option Fields
  | obj fields => some ⟨fun name _ => inObject fields name⟩
  | arr items => if items.length ≤ count then some ⟨fun _ place => inArray items place⟩ else none
  | _ => none

/-- A field that must be there. -/
def required {α : Type} (decode : Json → Option α) : Found → Option α
  | .value v => decode v
  | .invalid | .omitted | .short => none

/-- A value that may be null. -/
def nullable {α : Type} (decode : Json → Option α) : Json → Option (Option α)
  | null => some none
  | v => (decode v).map some

/-- A field that an object may leave out and that may be null. -/
def optional {α : Type} (decode : Json → Option α) : Found → Option (Option α)
  | .value v => nullable decode v
  | .omitted => some none
  | .invalid | .short => none

/-- A field that has the given value when it is left out. -/
def defaulted {α : Type} (default : α) (decode : Json → Option α) : Found → Option α
  | .value v => decode v
  | .invalid => none
  | .omitted | .short => some default

/-! ### Plain values -/

/-- A string. -/
def asString? : Json → Option String
  | str s => some s
  | _ => none

/-- A truth value. -/
def asBool? : Json → Option Bool
  | bool b => some b
  | _ => none

/-- An integer from zero up to, but not including, the bound. -/
def asNatBelow? (bound : Nat) : Json → Option Nat
  | int i => if 0 ≤ i ∧ i.toNat < bound then some i.toNat else none
  | _ => none

/-- A 32-bit number. -/
def asUInt32? (v : Json) : Option UInt32 :=
  (asNatBelow? UInt32.size v).map UInt32.ofNat

/-- A list of values of one shape. -/
def asList? {α : Type} (decode : Json → Option α) : Json → Option (List α)
  | arr items => items.mapM decode
  | _ => none

/-- A name out of a closed list, given as a string or as an object with that one field, which is
null. -/
def asName? {α : Type} (all : List α) (name : α → String) : Json → Option α
  | str s => all.find? (name · == s)
  | obj [(s, null)] => all.find? (name · == s)
  | _ => none

end EnvDiscovery.Json
