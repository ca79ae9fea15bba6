import EnvDiscovery.Path.Normal

/-!
**The user's surroundings.**

Main definitions:
* `Host` — the home folder and the variables of a user;
* `Host.pyenvRoot`, `Host.workonHome` — folders that variables may move;
* `Host.searchPath` — the directories of a `PATH` variable;
* `Path.addNew`, `Path.distinct` — a list of paths without later spellings of the same place.
-/

namespace EnvDiscovery

/-- Adds each path whose place is not yet there, in order. -/
def Path.addNew (kept paths : List Path) : List Path :=
  paths.foldl (fun kept p => if kept.any (·.samePlace p) then kept else kept ++ [p]) kept

/-- The first spelling of each place in a list, in order. -/
def Path.distinct (paths : List Path) : List Path :=
  Path.addNew [] paths

/-- The home folder and the variables of a user. -/
structure Host where
  home : Option Path
  vars : List (String × String)
deriving DecidableEq, Repr

namespace Host

/-- The value of a variable that is set to something. -/
def var (h : Host) (name : String) : Option String :=
  (h.vars.lookup name).filter (!·.isEmpty)

/-- The folder of pyenv. -/
def pyenvRoot (h : Host) : Option Path :=
  match h.var "PYENV_ROOT" with
  | some root => some ⟨root⟩
  | none => h.home.map (· / ".pyenv")

/-- The folder of virtualenvwrapper. -/
def workonHome (h : Host) : Option Path :=
  match h.var "WORKON_HOME" with
  | some folder => some ⟨folder⟩
  | none => h.home.map (· / ".virtualenvs")

/-- The texts between the colons of a list of directories. -/
def splitPathList (s : String) : List Path :=
  (s.toList.splitOn ':').map fun cs => ⟨String.ofList cs⟩

/-- The directories of the `PATH` variable, each place once. -/
def searchPath (h : Host) : List Path :=
  match h.var "PATH" with
  | none => []
  | some s => Path.distinct ((splitPathList s).filter (!·.text.isEmpty))

end Host

end EnvDiscovery
