import EnvDiscovery.Duration
import EnvDiscovery.Json.Decoder
import EnvDiscovery.Store.Basic
import EnvDiscovery.Time.DateText

/-!
**Values that expire.**

A value is stored in an envelope with the time of its creation. Reading gives the default where
there is no envelope, where it cannot be read, and where it is too old; it never changes the store.

Main definitions:
* `Store.Scope` — a key with its default and its expiry;
* `Store.Envelope` — a value and its time of creation;
* `Store.Scope.read`, `Store.Scope.write` — the value at a point in time.
-/

namespace EnvDiscovery.Store

/-- A value and the time of its creation. -/
structure Envelope (α : Type) where
  value : α
  created : Timestamp

/-- How values of a type are kept: `decode` reads the field of an envelope. -/
structure Form (α : Type) where
  encode : α → Json
  decode : Json.Found → Option α

/-- The form of any JSON value. -/
def Form.json : Form Json := ⟨id, Json.required some⟩

/-- The form of a value that may be missing. -/
def Form.option {α : Type} (encode : α → Json) (decode : Json → Option α) : Form (Option α) :=
  ⟨Json.ofOption encode, Json.optional decode⟩

/-- An envelope as an object. -/
def Envelope.toJson {α : Type} (form : Form α) (e : Envelope α) : Json :=
  .obj [("value", form.encode e.value), ("created_at", .str (DateText.render e.created))]

/-- An envelope from an object or an array. -/
def Envelope.ofJson? {α : Type} (form : Form α) (v : Json) : Option (Envelope α) := do
  let r ← v.asRecord? 2
  let value ← form.decode (r.find "value" 0)
  let created ← Json.required (fun v => v.asString?.bind DateText.parse) (r.find "created_at" 1)
  some ⟨value, created⟩

/-- A key of a store, the value it has when nothing else is known, and the age from which a stored
value no longer counts. -/
structure Scope (α : Type) where
  form : Form α
  key : String
  default : α
  expiry : Option Duration

/-- Nanoseconds from one point in time to another. -/
def nanosBetween (start finish : Timestamp) : Int :=
  (finish.secs - start.secs) * 1000000000 + ((finish.nanos : Int) - (start.nanos : Int))

/-- The longest span that ages are compared with, in nanoseconds. -/
def longestSpan : Nat := 9223372036854775807 * 1000000

/-- The longest age, in nanoseconds, that an expiry allows. An expiry above the longest span counts
as a century. -/
def maxAge (expiry : Duration) : Nat :=
  if expiry.totalNanos ≤ longestSpan then expiry.totalNanos
  else 365 * 100 * 86400 * 1000000000

/-- Whether an envelope has reached its expiry. -/
def isExpired {α : Type} (expiry : Option Duration) (now : Timestamp) (e : Envelope α) : Bool :=
  match expiry with
  | none => false
  | some d => (maxAge d : Int) ≤ nanosBetween e.created now

/-- The value of a scope. -/
def Scope.read {α : Type} (c : Scope α) (s : Store) (now : Timestamp) : α :=
  match s.get c.key with
  | .error _ | .ok none => c.default
  | .ok (some v) =>
    match Envelope.ofJson? c.form v with
    | none => c.default
    | some e => if isExpired c.expiry now e then c.default else e.value

/-- The store after a value is written. -/
def Scope.write {α : Type} (c : Scope α) (s : Store) (value : α) (created : Timestamp) :
    Except StorageFailure Store :=
  s.update c.key (Envelope.toJson c.form ⟨value, created⟩)

end EnvDiscovery.Store
