/-!
**JSON values.**

Integers from `-2^63` up to `2^64` are exact; every other number is a double. The fields of an
object have different names.

Main definitions:
* `Json` — values;
* `Json.get?` — a field of an object;
* `Json.setField` — a list of fields after one more assignment.
-/

namespace EnvDiscovery

/-- A JSON value. -/
inductive Json where
  | null
  | bool (b : Bool)
  | int (i : Int)
  | float (x : Float)
  | str (s : String)
  | arr (items : List Json)
  | obj (fields : List (String × Json))
deriving Inhabited, Repr, BEq

namespace Json

/-- The list of fields after assigning one of them: an old field of that name is replaced in its
place. -/
def setField (fields : List (String × Json)) (name : String) (value : Json) :
    List (String × Json) :=
  match fields with
  | [] => [(name, value)]
  | (n, v) :: rest => if n = name then (n, value) :: rest else (n, v) :: setField rest name value

/-- A field of an object. -/
def get? (name : String) : Json → Option Json
  | obj fields => fields.lookup name
  | _ => none

/-- The value, or null when there is none. -/
def ofOption {α : Type} (f : α → Json) : Option α → Json
  | none => null
  | some a => f a

/-- A natural number. -/
def nat (n : Nat) : Json := int n

/-- A 32-bit number. -/
def ofUInt32 (n : UInt32) : Json := int n.toNat

/-- A list of texts. -/
def strings (xs : List String) : Json := arr (xs.map str)

end Json

end EnvDiscovery
