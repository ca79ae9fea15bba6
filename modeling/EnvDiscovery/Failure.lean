import EnvDiscovery.Duration
import EnvDiscovery.Path.Basic

/-!
**What can go wrong.**

Failures are told apart by cause. Each has a one-line text, and a message for the user that may add
lines of context.

Main definitions:
* `ConfigFailure`, `ProcessFailure`, `StorageFailure`, `WatchFailure`, `UsageFailure` — causes by
  area;
* `Failure` — any of them;
* `Failure.text`, `Failure.userMessage`, `Failure.exitCode` — how a failure is reported.
-/

namespace EnvDiscovery

/-- Failures of the configuration. -/
inductive ConfigFailure where
  | invalidYaml (message : String) (line column : Option Nat) (file : Option Path)
  | notFound (path : Path) (suggestion : Option String)
  | invalidValue (message field value expected : String) (file : Option Path)
  | unreadable (message : String) (path : Option Path)
deriving DecidableEq, Repr

/-- Failures of running a program. -/
inductive ProcessFailure where
  | executionFailed (command : String) (exitCode : Option Int) (stderr : String)
  | timeout (command : String) (duration : Duration)
  | commandNotFound (command : String) (suggestion : Option String)
  | spawnFailed (command error : String)
  | outputCaptureFailed (message command : String)
deriving DecidableEq, Repr

/-- Failures of the key/value store. -/
inductive StorageFailure where
  | connectionFailed (message : String) (database : Option Path)
  | queryFailed (query error : String) (database : Option Path)
  | cacheDirectoryFailed (path : Path) (error : String)
  | corruptEntry (key error : String)
  | taskFailed (operation error : String)
deriving DecidableEq, Repr

/-- Failures of watching files. -/
inductive WatchFailure where
  | watcherCreationFailed (backend error : String)
  | watchFailed (path : Path) (error : String)
  | invalidPattern (pattern error : String)
deriving DecidableEq, Repr

/-- Failures of using the command line. -/
inductive UsageFailure where
  | conflictingArguments (first second suggestion : String)
  | runtimeError (message : String)
deriving DecidableEq, Repr

/-- What can go wrong. -/
inductive Failure where
  | config (cause : ConfigFailure)
  | process (cause : ProcessFailure)
  | storage (cause : StorageFailure)
  | watch (cause : WatchFailure)
  | usage (cause : UsageFailure)
  | inputOutput (message : String)
  | serialization (message : String)
deriving DecidableEq, Repr

/-! ### Texts -/

/-- The text of a failure of the configuration. -/
def ConfigFailure.text : ConfigFailure → String
  | invalidYaml message _ _ _ => "Invalid YAML syntax: " ++ message
  | notFound path _ => "Configuration file not found: " ++ path.shown
  | invalidValue message _ _ _ _ => "Invalid configuration value: " ++ message
  | unreadable message _ => "IO operation failed: " ++ message

/-- The text of a failure of running a program. -/
def ProcessFailure.text : ProcessFailure → String
  | executionFailed command _ _ => "Process execution failed: " ++ command
  | timeout command duration => "Process timeout after " ++ duration.render ++ ": " ++ command
  | commandNotFound command _ => "Command not found: " ++ command
  | spawnFailed command _ => "Process spawn failed: " ++ command
  | outputCaptureFailed message _ => "Output capture failed: " ++ message

/-- The text of a failure of the store. -/
def StorageFailure.text : StorageFailure → String
  | connectionFailed message _ => "Database connection failed: " ++ message
  | queryFailed query _ _ => "Database query failed: " ++ query
  | cacheDirectoryFailed path _ => "Cache directory creation failed: " ++ path.shown
  | corruptEntry key _ => "Stored value for " ++ key ++ " could not be decoded"
  | taskFailed operation _ => "Storage task failed: " ++ operation

/-- The text of a failure of watching files. -/
def WatchFailure.text : WatchFailure → String
  | watcherCreationFailed backend _ => "Failed to create " ++ backend ++ " watcher"
  | watchFailed path _ => "Failed to watch " ++ path.shown
  | invalidPattern pattern _ => "Invalid watch pattern: " ++ pattern

/-- The text of a failure of using the command line. -/
def UsageFailure.text : UsageFailure → String
  | conflictingArguments first second _ => "Conflicting arguments: " ++ first ++ " and " ++ second
  | runtimeError message => "Runtime error: " ++ message

namespace Failure

/-- The text of a failure. -/
def text : Failure → String
  | config cause => "Configuration error: " ++ cause.text
  | process cause => "Process execution failed: " ++ cause.text
  | storage cause => "Storage operation failed: " ++ cause.text
  | watch cause => "Filesystem watch failed: " ++ cause.text
  | usage cause => "CLI argument error: " ++ cause.text
  | inputOutput message => "IO operation failed: " ++ message
  | serialization message => "Serialization failed: " ++ message

/-- The line of help that some failures carry. -/
def context : Failure → String
  | config (.invalidYaml _ (some line) _ (some file)) =>
    "\n  --> " ++ file.shown ++ ":" ++ Text.decimal line
  | config (.notFound _ (some suggestion)) => "\n  Help: " ++ suggestion
  | config (.invalidValue _ field _ expected _) =>
    "\n  Field `" ++ field ++ "` expects " ++ expected
  | process (.commandNotFound _ (some suggestion)) => "\n  Help: " ++ suggestion
  | process (.timeout _ duration) => "\n  Timeout: " ++ duration.render
  | process (.executionFailed _ _ stderr) =>
    if stderr.isEmpty then "" else "\n  Process error: " ++ stderr
  | watch (.watchFailed _ error) => "\n  Watcher error: " ++ error
  | usage (.conflictingArguments _ _ suggestion) => "\n  Help: " ++ suggestion
  | _ => ""

/-- The message for the user, with its first word in red when colours are wanted. -/
def userMessage (colors : Bool) (f : Failure) : String :=
  (if colors then "\x1b[31mError: \x1b[0m" else "Error: ") ++ f.text ++ f.context

/-- Whether a program took too long. -/
def isTimeout : Failure → Bool
  | process (.timeout _ _) => true
  | _ => false

/-- The exit code of the program after a failure. -/
def exitCode : Failure → Nat
  | config _ => 2
  | process (.timeout _ _) => 6
  | process _ => 9
  | storage _ => 8
  | usage _ => 7
  | watch _ | inputOutput _ | serialization _ => 1

/-! ### Failures of the parts below -/

/-- A failure that the database reports with a message. -/
def ofDatabase (message : Option String) : Failure :=
  .storage (.queryFailed "SQLite operation" (message.getD "") none)

/-- A path that the database cannot use. -/
def ofDatabasePath (path : Path) : Failure :=
  .storage (.connectionFailed ("Invalid database path: " ++ path.shown) (some path))

/-- A query without the answer it needs. -/
def ofDatabaseAnswer (error : String) : Failure :=
  .storage (.queryFailed "Database operation" error none)

/-- The list of paths in a message of the file watcher. -/
def pathList (paths : List Path) : String :=
  "[" ++ ", ".intercalate (paths.map fun p => "\"" ++ p.text ++ "\"") ++ "]"

/-- A failure that the file watcher reports for some paths. -/
def ofWatcher (message : String) (paths : List Path) : Failure :=
  let error := if paths.isEmpty then message else message ++ " about " ++ pathList paths
  .watch (.watchFailed (paths.headD ⟨""⟩) error)

end Failure

end EnvDiscovery
