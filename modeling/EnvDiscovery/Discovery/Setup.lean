import EnvDiscovery.Config.Basic
import EnvDiscovery.Discovery.Session

/-!
**Discovery as configured.**

Main definitions:
* `Config.sources` — the sources that a configuration asks for;
* `Session.ofConfig` — the discovery that a configuration asks for.
-/

namespace EnvDiscovery

/-- The sources that a configuration asks for, in order. -/
def Config.sources (c : Config) (host : Host) (registry : Option Registry.Reader) : List Locator :=
  [.conda c.condaPath, .globalVirtualEnvs (c.virtualEnvFolders host.home), .pyenv,
    .knownPaths c.searchPaths] ++
    (if c.includePath then [.searchPath] else []) ++
    (if c.includeRegistry then [.registry registry] else [])

/-- The discovery that a configuration asks for, on a machine with workspace folders; none if the
age of cached answers cannot be told. -/
def Session.ofConfig (c : Config) (machine : Machine) (registry : Option Registry.Reader)
    (now : Timestamp) (store : Store) (watcher : Watcher) (folders : List Path) : Option Session :=
  c.cacheExpiry.map fun expiry =>
    .new { machine with timeout := c.resolveTimeout } (some ⟨expiry⟩) now store
      (c.sources machine.host registry) watcher folders true

end EnvDiscovery
