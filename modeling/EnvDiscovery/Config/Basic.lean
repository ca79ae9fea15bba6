import EnvDiscovery.Failure
import EnvDiscovery.Environment.Codec
import EnvDiscovery.Path.Normal

/-!
**The configuration.**

Main definitions:
* `Config`, `WatchSettings` — the settings, with their usual values as defaults;
* `Config.Fault`, `Config.fault?` — what makes a configuration invalid, the first fault of several;
* `Config.validate` — a configuration without faults, or the failure;
* `Config.cacheExpiry`, `Config.resolveTimeout`, `Config.pollInterval` — spans of time;
* `Config.virtualEnvFolders` — the folders that hold virtual environments.
-/

namespace EnvDiscovery

/-- How changes are watched for. -/
structure WatchSettings where
  enabled : Bool := true
  pollIntervalMs : UInt64 := 5000
deriving DecidableEq, Repr

/-- The settings of discovery. -/
structure Config where
  condaPath : Option Path := none
  venvPath : Option Path := none
  venvFolders : List Path := []
  searchPaths : List Path := []
  resolveTimeoutSecs : UInt64 := 15
  cacheExpiryHours : UInt64 := 24
  includeRegistry : Bool := false
  includePath : Bool := true
  watch : WatchSettings := {}
  cacheDir : Option Path := none
deriving DecidableEq, Repr

namespace Config

/-! ### Validity -/

/-- What makes a configuration invalid. -/
inductive Fault where
  | zeroTimeout
  | zeroExpiry
  | zeroPollInterval
  | relativePath (field : String) (path : Path)
deriving DecidableEq, Repr

/-- The failure that a fault in a file becomes. -/
def Fault.failure (file : Option Path) : Fault → ConfigFailure
  | zeroTimeout => .invalidValue "resolve timeout must be positive" "resolve_timeout_secs" "0"
      "a positive number of seconds" file
  | zeroExpiry => .invalidValue "cache expiry must be positive" "cache_expiry_hours" "0"
      "a positive number of hours" file
  | zeroPollInterval => .invalidValue "poll interval must be positive" "watch.poll_interval_ms" "0"
      "a positive number of milliseconds" file
  | relativePath field path => .invalidValue "configured paths must be absolute" field path.shown
      "an absolute path" file

/-- The paths that have to be absolute, with the names of their fields. -/
def absolutePaths (c : Config) : List (String × Path) :=
  c.condaPath.toList.map ("conda_path", ·) ++ c.venvPath.toList.map ("venv_path", ·) ++
    c.cacheDir.toList.map ("cache_dir", ·) ++ c.searchPaths.map ("search_paths", ·)

/-- The first fault of a configuration. -/
def fault? (c : Config) : Option Fault :=
  if c.resolveTimeoutSecs = 0 then some .zeroTimeout
  else if c.cacheExpiryHours = 0 then some .zeroExpiry
  else if c.watch.enabled && c.watch.pollIntervalMs = 0 then some .zeroPollInterval
  else (c.absolutePaths.find? (!·.2.isAbsolute)).map fun (field, path) => .relativePath field path

/-- The configuration if it has no fault. -/
def validate (c : Config) (file : Option Path) : Except ConfigFailure Config :=
  match c.fault? with
  | some fault => .error (fault.failure file)
  | none => .ok c

/-! ### Spans of time and folders -/

/-- The time that an interpreter is allowed. -/
def resolveTimeout (c : Config) : Duration := .ofSecs c.resolveTimeoutSecs.toNat

/-- The age from which cached answers no longer count; none if it has more seconds than a word of 64
bits holds. -/
def cacheExpiry (c : Config) : Option Duration :=
  let secs := c.cacheExpiryHours.toNat * 60 * 60
  if secs < UInt64.size then some (.ofSecs secs) else none

/-- The time between two looks at watched files. -/
def pollInterval (c : Config) : Duration := .ofMillis c.watch.pollIntervalMs.toNat

/-- The configured folders of virtual environments; relative ones are seen from the home folder. -/
def virtualEnvFolders (c : Config) (home : Option Path) : List Path :=
  c.venvPath.toList ++ c.venvFolders.filterMap fun folder =>
    if folder.isAbsolute then some folder else home.map (·.join folder)

/-- A configuration as an object. -/
def toJson (c : Config) : Json :=
  let path : Option Path → Json := .ofOption Path.toJson
  .obj [("conda_path", path c.condaPath), ("venv_path", path c.venvPath),
    ("venv_folders", .arr (c.venvFolders.map Path.toJson)),
    ("search_paths", .arr (c.searchPaths.map Path.toJson)),
    ("resolve_timeout_secs", .nat c.resolveTimeoutSecs.toNat),
    ("cache_expiry_hours", .nat c.cacheExpiryHours.toNat),
    ("include_registry", .bool c.includeRegistry), ("include_path", .bool c.includePath),
    ("watch", .obj [("enabled", .bool c.watch.enabled),
      ("poll_interval_ms", .nat c.watch.pollIntervalMs.toNat)]),
    ("cache_dir", path c.cacheDir)]

end Config

end EnvDiscovery
