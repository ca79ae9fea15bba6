import EnvDiscovery.Digest.Blake3
import EnvDiscovery.Environment.Codec
import EnvDiscovery.FileSystem.Basic
import EnvDiscovery.Store.Scoped
import EnvDiscovery.Text.Utf8

/-!
**Remembering what interpreters said.**

An entry is kept under the path of the executable together with the identity of its file. It counts
only while the file is the same and the entry is not too old.

Main definitions:
* `Resolution.cacheKey` — the key of an executable;
* `Resolution.identityBytes`, `Resolution.fileHash` — the identity of a file;
* `Resolution.Cache` — the cache, and `Cache.get`, `Cache.insert`, `Cache.invalidate` on it.
-/

namespace EnvDiscovery.Resolution

/-- The key of an executable. Only its path counts. -/
def cacheKey (executable : Path) : String :=
  "interpreter-info-v1:" ++ Blake3.hexHash (Text.bytes executable.key)

/-- The bytes of a number, most significant first. -/
def bigEndian (width n : Nat) : List UInt8 :=
  (List.range width).map fun i => UInt8.ofNat (n / Nat.pow 256 (width - 1 - i))

/-- The bytes of a time; a single zero stands for a time that is missing or lies before 1970. -/
def timeBytes : Option Timestamp → List UInt8
  | none => [0]
  | some t => if t.isBeforeEpoch then [0] else bigEndian 8 t.secs.toNat ++ bigEndian 4 t.nanos

/-- The bytes that identify a file: its real path, size and times. -/
def identityBytes (realPath : Path) (stat : FileStat) : List UInt8 :=
  Text.bytes realPath.key ++ bigEndian 8 stat.size.toNat ++ timeBytes stat.mtime ++
    timeBytes stat.ctime

/-- The identity of the file behind an executable, if it can be inspected. -/
def fileHash (fs : FileSystem) (executable : Path) : Option String := do
  let realPath ← fs.realPath executable
  let stat ← fs.stat realPath
  some (Blake3.hexHash (identityBytes realPath stat))

/-- What is kept: the identity of the file and what its interpreter said. -/
structure Entry where
  fileHash : String
  info : InterpreterInfo

/-- An entry as an object. -/
def Entry.toJson (e : Entry) : Json :=
  .obj [("fileHash", .str e.fileHash), ("info", e.info.toJson)]

/-- An entry from an object or an array. -/
def Entry.ofJson? (v : Json) : Option Entry := do
  let r ← v.asRecord? 2
  let fileHash ← Json.required Json.asString? (r.find "fileHash" 0)
  let info ← Json.required InterpreterInfo.ofJson? (r.find "info" 1)
  some ⟨fileHash, info⟩

/-- The age from which entries no longer count, unless something else is said. -/
def defaultExpiry : Duration := .ofSecs (24 * 60 * 60)

/-- A cache: the age from which its entries no longer count. -/
structure Cache where
  expiry : Duration

namespace Cache

/-- The place of an executable in the store. -/
def scope (c : Cache) (executable : Path) : Store.Scope (Option Entry) where
  form := .option Entry.toJson Entry.ofJson?
  key := cacheKey executable
  default := none
  expiry := some c.expiry

/-- What the interpreter said, if the entry is fresh and the file unchanged. -/
def get (c : Cache) (fs : FileSystem) (store : Store) (now : Timestamp) (executable : Path) :
    Option InterpreterInfo := do
  let entry ← (c.scope executable).read store now
  let current ← fileHash fs executable
  if entry.fileHash = current then some entry.info else none

/-- The store after an entry is written; unchanged if the file cannot be identified. -/
def insert (c : Cache) (fs : FileSystem) (store : Store) (created : Timestamp) (executable : Path)
    (info : InterpreterInfo) : Except StorageFailure Store :=
  match fileHash fs executable with
  | none => .ok store
  | some hash => (c.scope executable).write store (some ⟨hash, info⟩) created

/-- The store without the entry of an executable. -/
def invalidate (store : Store) (executable : Path) : Except StorageFailure Store :=
  store.remove (cacheKey executable)

end Cache

end EnvDiscovery.Resolution
