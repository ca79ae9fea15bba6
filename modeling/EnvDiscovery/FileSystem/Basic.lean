import EnvDiscovery.Path.Layout
import EnvDiscovery.Time

/-!
**File systems.**

Discovery sees a file system through a handful of questions. A path that is missing or may not be
read has no answer.

Main definitions:
* `FileStat` — what is known of a file without opening it;
* `FileSystem` — the questions;
* `FileSystem.isDir`, `FileSystem.isFile` — the two that follow from the others.
-/

namespace EnvDiscovery

/-- What is known of a file without opening it. -/
structure FileStat where
  size : UInt64
  mtime : Option Timestamp
  ctime : Option Timestamp
  isDir : Bool
  isSymlink : Bool
deriving DecidableEq

/-- A file system. Links are followed by every question except `lstat` and `readLink`. -/
structure FileSystem where
  present : Path → Bool
  lstat : Path → Option FileStat
  stat : Path → Option FileStat
  listDir : Path → List Path
  readLink : Path → Option Path
  realPath : Path → Option Path
  readText : Path → Option String

namespace FileSystem

/-- Whether a path leads to a directory. -/
def isDir (fs : FileSystem) (p : Path) : Bool :=
  (fs.stat p).any (·.isDir)

/-- Whether a path leads to something that is not a directory. -/
def isFile (fs : FileSystem) (p : Path) : Bool :=
  (fs.stat p).any (!·.isDir)

/-- The first interpreter that exists in an environment. -/
def findInterpreter (fs : FileSystem) (home : Path) : Option Path :=
  home.interpreterCandidates.find? fs.isFile

/-- The interpreters directly inside a directory, in listing order. -/
def pythonExecutables (fs : FileSystem) (dir : Path) : List Path :=
  (fs.listDir dir).filter fun p => p.isPythonPath && fs.isFile p

end FileSystem

end EnvDiscovery
