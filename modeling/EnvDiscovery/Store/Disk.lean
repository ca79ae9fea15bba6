import EnvDiscovery.FileSystem.Tree
import EnvDiscovery.Store.Basic

/-!
**Stores on disk.**

Main definitions:
* `Disk` — a file tree and the databases in it;
* `Disk.makeDir` — making a directory and those above it;
* `Disk.openStore` — the store in a directory, or one in memory if the directory cannot be used;
* `Disk.save` — keeping what is in a store.
-/

namespace EnvDiscovery

/-- A file tree and the databases in it, by the places of their files. -/
structure Disk where
  tree : FileTree
  databases : List (FileTree.Place × Store)

/-- A store that is open, and where it is kept if it is kept at all. -/
structure OpenStore where
  store : Store
  directory : Option Path
  place : Option FileTree.Place

namespace Disk

/-- Makes a directory and those above it. A name that is taken by something else is in the way. -/
def makeDir (t : FileTree) : Nat → Path → Option FileTree
  | 0, _ => none
  | fuel + 1, p =>
    let p : Path := if p.text.isEmpty then ⟨"."⟩ else p
    match t.locate true p with
    | some place => if t.isDirAt place then some t else none
    | none =>
      match t.locate false p, p.parent?, p.fileName? with
      | none, some above, some name =>
        let above : Path := if above.text.isEmpty then ⟨"."⟩ else above
        match makeDir t fuel above with
        | none => none
        | some t => (t.locate true above).map fun place => t.put (name :: place) (.dir true)
      | _, _, _ => none

/-- The tree with the directory of a store in it. A new one gets a file that explains it. -/
def withDirectory (t : FileTree) (dir : Path) : Option FileTree :=
  if (t.locate true dir).isSome then some t
  else
    (makeDir t (dir.components.length + 1) dir).map fun t =>
      match t.locate true dir with
      | some place => t.put ("README" :: place) (.text CacheDirectory.readme)
      | none => t

/-- The place of the database in a directory, if one is there or can be made there. -/
def databasePlace (t : FileTree) (dir : Path) : Option FileTree.Place :=
  match t.locate true dir with
  | none => none
  | some place =>
    let file := CacheDirectory.databaseFile :: place
    if !t.isDirAt place then none
    else
      match t.node? file with
      | none => some file
      | some n => if n.content == some "" then some file else none

/-- The store in a directory, with the disk after it is opened; none if the directory cannot be
used. -/
def openIn (d : Disk) (dir : Path) : Option (Disk × OpenStore) := do
  let tree ← withDirectory d.tree dir
  let place ← databasePlace tree dir
  let tree := if (tree.node? place).isSome then tree else tree.put place (.text "")
  return ({ d with tree := tree }, ⟨(d.databases.lookup place).getD .database,
    some dir, some place⟩)

/-- The store in a directory, or one in memory if there is no directory that can be used. -/
def openStore (d : Disk) (dir : Option Path) : Disk × OpenStore :=
  (dir.bind d.openIn).getD (d, ⟨.database, none, none⟩)

/-- The disk after what is in an open store is kept. -/
def save (d : Disk) (s : OpenStore) : Disk :=
  match s.place with
  | none => d
  | some place => { d with databases := (place, s.store) :: d.databases.filter (·.1 != place) }

end Disk

end EnvDiscovery
