import EnvDiscovery.FileSystem.Basic

/-!
**File trees.**

A tree maps places to files, links and directories. A path is walked from the root name by name:
links on the way are followed, at most forty of them, and only a directory can be walked through.

Main definitions:
* `FileTree.Node`, `FileTree` — trees;
* `FileTree.write`, `FileTree.delete` — changing a tree;
* `FileTree.locate` — the place that a path leads to;
* `FileTree.link` — making a link;
* `FileTree.fileSystem` — the questions that a tree answers.
-/

namespace EnvDiscovery

/-- What can stand at a place. -/
inductive FileTree.Node where
  | file (content : String) (readable : Bool) (stat : FileStat)
  | link (target : String)
  | dir (readable : Bool)

/-- A place is the list of its names, innermost first. -/
abbrev FileTree.Place := List String

/-- A tree; the root directory is always there. Relative paths begin at the place `cwd`. -/
structure FileTree where
  nodes : List (FileTree.Place × FileTree.Node)
  cwd : FileTree.Place := []

namespace FileTree

/-- The number of links that a walk may follow. -/
def linkLimit : Nat := 40

/-- The modification time of everything for which no other time is given. -/
def usualMtime : Timestamp := ⟨1000, 0⟩

/-- The change time of everything for which no other time is given. -/
def usualCtime : Timestamp := ⟨2000, 5⟩

/-- The empty tree. -/
def empty : FileTree := ⟨[], []⟩

/-- What stands at a place. -/
def node? (t : FileTree) : Place → Option Node
  | [] => some (.dir true)
  | p => t.nodes.lookup p

/-- Whether a place is a directory. -/
def isDirAt (t : FileTree) (p : Place) : Bool :=
  match t.node? p with
  | some (.dir _) => true
  | _ => false

/-- A file with the usual times, as long as its text. -/
def Node.text (content : String) : Node :=
  .file content true ⟨content.utf8ByteSize.toUInt64, some usualMtime, some usualCtime, false, false⟩

/-! ### Changing a tree -/

/-- The place that the names in a path spell. -/
def placeOf (t : FileTree) (p : Path) : Place :=
  (p.segments.filter (!Path.isTrivial ·)).reverse ++ (if p.isAbsolute then [] else t.cwd)

/-- Puts a node at a place; what stood there is replaced. -/
def put (t : FileTree) (p : Place) (n : Node) : FileTree :=
  { t with nodes := (p, n) :: t.nodes.filter fun (q, _) => q != p }

/-- Makes the missing directories above and at a place. -/
def makeDirs (t : FileTree) : Place → FileTree
  | [] => t
  | name :: above =>
    let t := t.makeDirs above
    if (t.node? (name :: above)).isSome then t else t.put (name :: above) (.dir true)

/-- Puts a node at a path and makes the directories above it. -/
def write (t : FileTree) (p : Path) (n : Node) : FileTree :=
  let place := t.placeOf p
  (t.makeDirs place.tail).put place n

/-- Removes what stands at a path and everything below it. -/
def delete (t : FileTree) (p : Path) : FileTree :=
  let place := t.placeOf p
  { t with nodes := t.nodes.filter fun (q, _) => !place.isSuffixOf q }

/-! ### Walking -/

/-- The segments of a text that is a path. -/
def segmentsOf (s : String) : List String :=
  (⟨s⟩ : Path).segments

/-- Walks from a place along segments. A link is followed unless it is the last name and `follow` is
false. -/
def walk (t : FileTree) (follow : Bool) (links : Nat) (here : Place) (segs : List String) :
    Option Place :=
  match segs with
  | [] => some here
  | s :: rest =>
    if !t.isDirAt here then none
    else if Path.isTrivial s then t.walk follow links here rest
    else if s = ".." then t.walk follow links here.tail rest
    else
      match t.node? (s :: here) with
      | none => none
      | some (.link target) =>
        if rest.isEmpty && !follow then some (s :: here)
        else if target.isEmpty then none
        else
          match links with
          | 0 => none
          | links + 1 =>
            let start := if (⟨target⟩ : Path).isAbsolute then [] else here
            t.walk follow links start (segmentsOf target ++ rest)
      | some _ => t.walk follow links (s :: here) rest
termination_by (links, segs.length)

/-- The place that a path leads to, if something stands there. -/
def locate (t : FileTree) (follow : Bool) (p : Path) : Option Place :=
  if p.text.isEmpty then none
  else t.walk follow linkLimit (if p.isAbsolute then [] else t.cwd) p.segments

/-- What a path leads to. -/
def nodeAt (t : FileTree) (follow : Bool) (p : Path) : Option Node :=
  (t.locate follow p).bind t.node?

/-- Makes a link at a path, unless its name is taken or its directory is missing. -/
def link (t : FileTree) (p : Path) (target : String) : FileTree :=
  match p.fileName?, p.parent?.bind (t.locate true) with
  | some name, some dir =>
    if t.isDirAt dir && (t.node? (name :: dir)).isNone then t.put (name :: dir) (.link target)
    else t
  | _, _ => t

/-! ### Questions -/

/-- What is known of a node without opening it. -/
def Node.stat : Node → FileStat
  | .file _ _ stat => stat
  | .link _ => ⟨0, some usualMtime, some usualCtime, false, true⟩
  | .dir _ => ⟨0, some usualMtime, some usualCtime, true, false⟩

/-- The path of a place. -/
def pathOf (p : Place) : Path :=
  ⟨"/" ++ "/".intercalate p.reverse⟩

/-- The names in a directory, in ascending order. -/
def namesIn (t : FileTree) (p : Place) : List String :=
  let names := t.nodes.filterMap fun (q, _) =>
    match q with
    | [] => none
    | name :: above => if above = p then some name else none
  names.mergeSort fun a b => compare a b != .gt

/-- The names that a path lists: those in a directory that may be read. -/
def list (t : FileTree) (p : Path) : List String :=
  match t.locate true p with
  | none => []
  | some place =>
    match t.node? place with
    | some (.dir true) => t.namesIn place
    | _ => []

/-- The text of a node, if it is a file that may be read. -/
def Node.content : Node → Option String
  | .file content true _ => some content
  | _ => none

/-- The target of a node, if it is a link. -/
def Node.target : Node → Option Path
  | .link target => some ⟨target⟩
  | _ => none

/-- The questions that a tree answers. -/
def fileSystem (t : FileTree) : FileSystem where
  present p := (t.locate true p).isSome
  lstat p := (t.nodeAt false p).map Node.stat
  stat p := (t.nodeAt true p).map Node.stat
  listDir p := (t.list p).map (p / ·)
  readLink p := (t.nodeAt false p).bind Node.target
  realPath p := (t.locate true p).map pathOf
  readText p := (t.nodeAt true p).bind Node.content

end FileTree

end EnvDiscovery
