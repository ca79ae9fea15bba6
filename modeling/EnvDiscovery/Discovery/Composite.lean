import EnvDiscovery.Discovery.EnvSet
import EnvDiscovery.Locator.Basic
import EnvDiscovery.Resolution.Resolver

/-!
**Joining what the sources find.**

Main definitions:
* `roundRobin` — one element of each list in turn;
* `Composite.untilGap` — all records, if no source broke off;
* `Composite.admits`, `Composite.collect` — the records that a query lets through, merged;
* `Composite.completeAll` — the records that can be completed;
* `Known` — the records that earlier answers left behind;
* `Composite.identify`, `Composite.resolve` — the record of one executable.
-/

namespace EnvDiscovery

/-- One element of each list in turn, for a number of rounds. -/
def roundRobinFor {α : Type} : Nat → List (List α) → List α
  | 0, _ => []
  | n + 1, lists => lists.filterMap List.head? ++ roundRobinFor n (lists.map List.tail)

/-- One element of each list in turn; a list that has ended drops out. -/
def roundRobin {α : Type} (lists : List (List α)) : List α :=
  roundRobinFor ((lists.map List.length).foldl max 0) lists

namespace Composite

/-- All records, unless there is a gap among them. -/
def untilGap : List (Option EnvRecord) → Option (List EnvRecord)
  | [] => some []
  | none :: _ => none
  | some e :: rest => (untilGap rest).map (e :: ·)

/-- Whether a query lets a record through: its kind and place are wanted and its executable is
there. -/
def admits (fs : FileSystem) (q : Query) (e : EnvRecord) : Bool :=
  q.matchesKind e.kind && q.inScope e && fs.isFile e.path

/-- The records that a query lets through, records of one environment merged. -/
def collect (fs : FileSystem) (q : Query) (found : List EnvRecord) : List EnvRecord :=
  (EnvSet.ofList fs.realPath (found.filter (admits fs q))).records

/-- A record if it is complete already, else what its interpreter makes of it, if that succeeds. -/
def completed (r : Resolver) (store : Store) (e : EnvRecord) :
    Traced (Stored (Option EnvRecord)) := do
  if e.isResolved then return ⟨some e, store⟩
  let ⟨result, store⟩ ← r.record store e
  match result with
  | .ok e => return ⟨e, store⟩
  | .error _ => return ⟨none, store⟩

/-- The records that are complete or can be completed, in order. -/
def completeAll (r : Resolver) (store : Store) : List EnvRecord → Traced (Stored (List EnvRecord))
  | [] => return ⟨[], store⟩
  | e :: rest => do
    let ⟨first, store⟩ ← completed r store e
    let ⟨more, store⟩ ← completeAll r store rest
    return ⟨first.toList ++ more, store⟩

end Composite

/-- The records that earlier answers left behind, under the keys of their executables. -/
structure Known where
  entries : List (String × EnvRecord)

namespace Known

/-- Nothing is known. -/
def empty : Known := ⟨[]⟩

/-- The record under a key. -/
def get? (k : Known) (key : String) : Option EnvRecord :=
  k.entries.lookup key

/-- Puts a record under a key; an older one is replaced. -/
def insert (k : Known) (key : String) (e : EnvRecord) : Known :=
  ⟨k.entries.filter (·.1 != key) ++ [(key, e)]⟩

/-- Puts records under the keys of their executables. -/
def insertAll (k : Known) (es : List EnvRecord) : Known :=
  es.foldl (fun k e => k.insert e.path.key e) k

/-- What is known after the answer to a query: the answer to an unrestricted query replaces
everything. -/
def remember (k : Known) (q : Query) (es : List EnvRecord) : Known :=
  (if q = .all then empty else k).insertAll es

/-- All records, by the text of their paths. -/
def records (k : Known) : List EnvRecord :=
  (k.entries.map Prod.snd).mergeSort fun a b => compare a.path.text b.path.text != .gt

/-- Whether a record of the executable is known. -/
def contains (k : Known) (executable : Path) : Bool :=
  k.entries.any fun (_, e) => e.path.key == executable.key

end Known

/-- What is asked about: a bare path, or a record to be completed. -/
inductive EnvRef where
  | path (executable : Path)
  | record (e : EnvRecord)

/-- The executable that is asked about. -/
def EnvRef.executable : EnvRef → Path
  | path p => p
  | record e => e.path

namespace Composite

/-- The record of an executable: from the first source that recognises it, else from its place
alone. -/
def identify (s : Surroundings) (sources : List Locator) (executable : Path) : EnvRecord :=
  (sources.findSome? (·.resolve s executable)).getD (s.globalRecord executable knownDirs .other)

/-- The outcome of a resolution, with what is stored and known after it. -/
structure Resolved where
  result : Except ProcessFailure (Option EnvRecord)
  store : Store
  known : Known

/-- The record to be completed. -/
def candidate (s : Surroundings) (sources : List Locator) : EnvRef → EnvRecord
  | .path executable => identify s sources executable
  | .record e => e

/-- The complete record of one executable. What is known and complete is given at once; a path that
is no file has no record; a program that takes too long is an error. -/
def resolve (r : Resolver) (sources : List Locator) (store : Store) (known : Known) (ref : EnvRef) :
    Traced Resolved := do
  if !r.machine.fs.isFile ref.executable then return ⟨.ok none, store, known⟩
  match (known.get? ref.executable.key).filter (·.isResolved) with
  | some e => return ⟨.ok (some e), store, known⟩
  | none =>
    let ⟨result, store⟩ ← r.record store (candidate r.machine.toSurroundings sources ref)
    match result with
    | .ok (some e) => return ⟨.ok (some e), store, known.insert ref.executable.key e⟩
    | result => return ⟨result, store, known⟩

end Composite

end EnvDiscovery
