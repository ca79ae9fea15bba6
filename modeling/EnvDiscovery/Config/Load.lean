import EnvDiscovery.Config.Reader
import EnvDiscovery.FileSystem.Basic
import EnvDiscovery.Host
import EnvDiscovery.Store.Basic

/-!
**Finding the configuration.**

Main definitions:
* `Host.ofVariables` — the surroundings that the variables of a process describe;
* `Config.withVariables` — the settings that variables override;
* `Config.defaultPath` — the file of the user;
* `Config.load` — the configuration of a process;
* `CacheDirectory.default` — where the store is kept unless the configuration says so.
-/

namespace EnvDiscovery

/-- The surroundings that the variables of a process describe. -/
def Host.ofVariables (vars : List (String × String)) : Host :=
  let h : Host := ⟨none, vars⟩
  { h with home := (h.var "HOME").map Path.mk }

/-- A folder of the user: as a variable says if that is absolute, else inside the home folder. -/
def Host.userFolder (h : Host) (name usual : String) : Option Path :=
  match ((h.var name).map Path.mk).filter (·.isAbsolute) with
  | some folder => some folder
  | none => h.home.map (· / usual)

namespace Config

/-- The name of the file. -/
def fileName : String := "pyscout.yaml"

/-- The name of the folder of the file. -/
def folderName : String := "pyscout"

/-- The variable that overrides the folder of the store. -/
def homeVariable : String := "PYSCOUT_HOME"

/-- The variable that overrides the path of conda. -/
def condaVariable : String := "PYSCOUT_CONDA_PATH"

/-- The file of the user. -/
def defaultPath (h : Host) : Option Path :=
  (h.userFolder "XDG_CONFIG_HOME" ".config").map (· / folderName / fileName)

/-- The settings after variables have overridden them. -/
def withVariables (c : Config) (h : Host) : Config :=
  { c with
    cacheDir := (h.var homeVariable).map Path.mk <|> c.cacheDir
    condaPath := (h.var condaVariable).map Path.mk <|> c.condaPath }

/-- The configuration in a file. -/
def ofFile (fs : FileSystem) (file : Path) : Except ConfigFailure Config :=
  if !fs.present file then
    .error (.notFound file (some ("Create " ++ file.shown ++
      " or omit --config to use the defaults")))
  else
    match fs.readText file with
    | none => .error (.unreadable "" (some file))
    | some text => ofYaml text (some file)

/-- The configuration before variables override it: that of the given file, of the user's file if
there is one, or the usual one. -/
def ofFiles (fs : FileSystem) (h : Host) (given : Option Path) : Except ConfigFailure Config :=
  match given with
  | some file => ofFile fs file
  | none =>
    match (defaultPath h).filter fs.isFile with
    | some file => ofFile fs file
    | none => .ok {}

/-- The configuration of a process. -/
def load (fs : FileSystem) (h : Host) (given : Option Path) : Except ConfigFailure Config :=
  match ofFiles fs h given with
  | .error f => .error f
  | .ok c => (c.withVariables h).validate given

end Config

namespace CacheDirectory

/-- Where the store is kept unless the configuration says so. -/
def default (h : Host) : Option Path :=
  match h.var Config.homeVariable, h.var "XDG_CACHE_HOME" with
  | some folder, _ => some ⟨folder⟩
  | none, some folder => some ((⟨folder⟩ : Path) / folderName)
  | none, none => (h.userFolder "XDG_CACHE_HOME" ".cache").map (· / folderName)

end CacheDirectory

end EnvDiscovery
