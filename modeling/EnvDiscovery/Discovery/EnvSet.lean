import EnvDiscovery.Environment.Merge
import EnvDiscovery.Path.Normal

/-!
**Sets of environments.**

Two records are about the same environment if they share a key: the normal path of the executable or
the path behind its links. Records of one environment are merged in the place of the first.

Main definitions:
* `EnvSet` — records in order, and the position of every key seen so far;
* `EnvSet.keysOf` — the keys of a record;
* `EnvSet.add`, `EnvSet.ofList` — adding records.
-/

namespace EnvDiscovery

/-- Records in order, and the position of every key seen so far. -/
structure EnvSet where
  records : List EnvRecord
  index : List (String × Nat)

namespace EnvSet

/-- No records. -/
def empty : EnvSet := ⟨[], []⟩

/-- The keys of a record: its path, and the path behind its links. -/
def keysOf (e : EnvRecord) (realPath : Option Path) : List String :=
  e.path.key :: realPath.toList.map Path.key

/-- The position of the first key that was seen before. -/
def position? (s : EnvSet) (keys : List String) : Option Nat :=
  keys.findSome? fun k => s.index.lookup k

/-- Adds a record: merges it into the record that shares a key, or puts it at the end. All its keys
then stand for that position. -/
def add (s : EnvSet) (e : EnvRecord) (realPath : Option Path) : EnvSet :=
  let keys := keysOf e realPath
  match s.position? keys with
  | some i => ⟨s.records.modify i (·.merge e), keys.map (·, i) ++ s.index⟩
  | none => ⟨s.records ++ [e], keys.map (·, s.records.length) ++ s.index⟩

/-- The set of some records, added in order. -/
def ofList (realPath : Path → Option Path) (es : List EnvRecord) : EnvSet :=
  es.foldl (fun s e => s.add e (realPath e.path)) empty

end EnvSet

end EnvDiscovery
