import EnvDiscovery.Locator.Machine
import EnvDiscovery.Resolution.Cache
import EnvDiscovery.Resolution.Report

/-!
**Completing records by running interpreters.**

Main definitions:
* `Resolver` — the machine, the clock and the cache of a resolution;
* `Resolver.interpreter` — what an executable says of itself, from the cache or by running it;
* `Resolver.record` — a record completed with that and with the times of its file.
-/

namespace EnvDiscovery

open Resolution

/-- What a resolution works with. -/
structure Resolver where
  machine : Machine
  cache : Option Cache
  now : Timestamp

/-- The outcome of an operation on the store, with the store after it. -/
structure Stored (α : Type) where
  result : α
  store : Store

namespace Resolver

/-- What the cache holds for an executable. -/
def cached (r : Resolver) (store : Store) (executable : Path) : Option InterpreterInfo :=
  r.cache.bind fun c => c.get r.machine.fs store r.now executable

/-- The store after an answer is remembered; a write that fails changes nothing. -/
def remember (r : Resolver) (store : Store) (executable : Path) (info : InterpreterInfo) : Store :=
  match r.cache with
  | none => store
  | some c =>
    match c.insert r.machine.fs store r.now executable info with
    | .ok store => store
    | .error _ => store

/-- What the output of an interpreter says; an empty path stands for the executable that was run. -/
def readReport (executable : Path) (output : Output) : Option InterpreterInfo :=
  (Report.parse output.text).map fun info =>
    if info.executable.text.isEmpty then { info with executable := executable } else info

/-- What an executable says of itself. Only a timeout is an error; a path that is no interpreter
gives nothing. -/
def interpreter (r : Resolver) (store : Store) (executable : Path) :
    Traced (Stored (Except ProcessFailure (Option InterpreterInfo))) := do
  if !r.machine.fs.isFile executable then return ⟨.ok none, store⟩
  match r.cached store executable with
  | some info => return ⟨.ok (some info), store⟩
  | none =>
    match ← r.machine.run executable ["-c", Report.script] with
    | .error (.timeout command duration) => return ⟨.error (.timeout command duration), store⟩
    | .error _ => return ⟨.ok none, store⟩
    | .ok output =>
      match readReport executable output with
      | none => return ⟨.ok none, store⟩
      | some info => return ⟨.ok (some info), r.remember store executable info⟩

/-- A record with the times of its file, if the file can be inspected. -/
def withTimes (fs : FileSystem) (e : EnvRecord) : EnvRecord :=
  match fs.stat e.path with
  | none => e
  | some stat =>
    { e with executable := { e.executable with ctime := stat.ctime, mtime := stat.mtime } }

/-- A record completed with what its interpreter says. -/
def record (r : Resolver) (store : Store) (e : EnvRecord) :
    Traced (Stored (Except ProcessFailure (Option EnvRecord))) := do
  let ⟨result, store⟩ ← r.interpreter store e.path
  match result with
  | .error f => return ⟨.error f, store⟩
  | .ok none => return ⟨.ok none, store⟩
  | .ok (some info) => return ⟨.ok (some (withTimes r.machine.fs (e.complete info))), store⟩

end Resolver

end EnvDiscovery
