import EnvDiscovery.Failure
import EnvDiscovery.Json.Printer
import EnvDiscovery.Json.Text

/-!
**The key/value store.**

A store maps keys to JSON values, and the last write under a key counts. A database keeps its values
as texts and reads them again; a store in memory keeps the values themselves. Reading or writing may
be out of order, in which case it fails and changes nothing.

Main definitions:
* `Store`, `Store.inMemory`, `Store.database` — stores;
* `Store.get`, `Store.update`, `Store.remove`, `Store.clear` — operations;
* `Store.keys`, `Store.size` — what is stored.
-/

namespace EnvDiscovery

/-- A stored value: as it is, or as a text that has yet to be read. -/
inductive Store.Entry where
  | value (v : Json)
  | text (s : String)

/-- A store. -/
structure Store where
  entries : List (String × Store.Entry)
  asText : Bool
  readable : Bool
  writable : Bool

namespace Store

/-- An empty store that keeps values as they are. -/
def inMemory : Store := ⟨[], false, true, true⟩

/-- An empty store that keeps values as texts. -/
def database : Store := ⟨[], true, true, true⟩

/-- The failure of a store that is out of order. -/
def outOfOrder : StorageFailure :=
  .queryFailed "fake" "fake" none

/-- Assigns an entry; an old one of that key is replaced in its place. -/
def put (key : String) (entry : Entry) : List (String × Entry) → List (String × Entry)
  | [] => [(key, entry)]
  | (k, e) :: rest => if k = key then (k, entry) :: rest else (k, e) :: put key entry rest

/-- The value of an entry. -/
def valueOf (key : String) : Entry → Except StorageFailure Json
  | .value v => .ok v
  | .text s =>
    match Json.parse? s with
    | some v => .ok v
    | none => .error (.corruptEntry key "")

/-- The value under a key. -/
def get (s : Store) (key : String) : Except StorageFailure (Option Json) :=
  if !s.readable then .error outOfOrder
  else
    match s.entries.lookup key with
    | none => .ok none
    | some e => (valueOf key e).map some

/-- The store after a value is written under a key. -/
def update (s : Store) (key : String) (v : Json) : Except StorageFailure Store :=
  if !s.writable then .error outOfOrder
  else .ok { s with entries := put key (if s.asText then .text v.render else .value v) s.entries }

/-- The store after a text is written under a key as it is. -/
def updateText (s : Store) (key text : String) : Store :=
  { s with entries := put key (.text text) s.entries }

/-- The store after a key is removed. -/
def remove (s : Store) (key : String) : Except StorageFailure Store :=
  if !s.writable then .error outOfOrder
  else .ok { s with entries := s.entries.filter fun (k, _) => k != key }

/-- Removes all entries: how many there were, and the store without them. -/
def clear (s : Store) : Nat × Store :=
  (s.entries.length, { s with entries := [] })

/-- The number of entries. -/
def size (s : Store) : Nat :=
  s.entries.length

/-- The keys in ascending order. -/
def keys (s : Store) : List String :=
  (s.entries.map Prod.fst).mergeSort fun a b => compare a b != .gt

end Store

/-! ### Where the store is kept -/

namespace CacheDirectory

/-- The version of the layout of the database. -/
def schemaVersion : Nat := 1

/-- The name of the folder of the store. -/
def folderName : String := "pyscout"

/-- The file of the database inside the folder. -/
def databaseFile : String := "kv.db"

/-- The text of the file that explains the folder. -/
def readme : String :=
  "This directory is maintained by pyscout.\n\n- kv.db: cached interpreter information\n\n" ++
  "It is safe to delete; entries are recomputed on demand.\n"

end CacheDirectory

end EnvDiscovery
