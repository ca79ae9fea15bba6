import EnvDiscovery.FileSystem.Tree
import EnvDiscovery.Json.Decoder

/-!
**Descriptions of file trees.**

A tree is described by an object whose names are paths. A text stands for a file with that content;
an object describes a link, a directory, or a file with its size and times.

Main definitions:
* `FileTree.Node.ofJson` — what a description stands for;
* `FileTree.withFiles` — a tree with what an object describes.
-/

namespace EnvDiscovery.FileTree

/-- A time in a description: the usual one if nothing is said, and unknown unless it is given as
seconds and nanoseconds. -/
def timeIn (j : Json) (name : String) (usual : Timestamp) : Option Timestamp :=
  match j.get? name with
  | none => some usual
  | some (.arr [.int secs, .int nanos]) => some ⟨secs, nanos.toNat⟩
  | some _ => none

/-- Whether a description says that something is so. -/
def flagIn (j : Json) (name : String) : Bool :=
  ((j.get? name).bind Json.asBool?).getD false

/-- A text in a description. -/
def textIn? (j : Json) (name : String) : Option String :=
  (j.get? name).bind Json.asString?

/-- The size of a file: the one given, or the length of its content. -/
def sizeIn (j : Json) (content : String) : UInt64 :=
  match j.get? "size" with
  | some (.int n) => n.toNat.toUInt64
  | _ => content.utf8ByteSize.toUInt64

/-- What a description stands for. -/
def Node.ofJson : Json → Node
  | .str content => .text content
  | j =>
    if flagIn j "dir" then .dir (!flagIn j "unreadable")
    else
      match textIn? j "link" with
      | some target => .link target
      | none =>
        let content := (textIn? j "content").getD ""
        .file content (!flagIn j "unreadable")
          ⟨sizeIn j content, timeIn j "mtime" usualMtime, timeIn j "ctime" usualCtime, false, false⟩

/-- The tree with what an object describes; relative paths are taken below `base`. -/
def withFiles (t : FileTree) (base : Path) : Json → FileTree
  | .obj fields => fields.foldl (fun t (name, j) => t.write (base.join ⟨name⟩) (.ofJson j)) t
  | _ => t

end EnvDiscovery.FileTree
