import EnvDiscovery.Path.Normal
import EnvDiscovery.Text.Ascii
import EnvDiscovery.Text.Digit

/-!
**Where an environment keeps its interpreter.**

An environment is a folder with its scripts in `bin`. The folder is called the environment's home.

Main definitions:
* `Path.isPythonName` — `python`, `python3`, `python3.11`, …;
* `Path.interpreterIn`, `Path.interpreterCandidates` — interpreters by convention;
* `Path.homeOf?` — from an executable to the home of its environment.
-/

namespace EnvDiscovery.Path

/-- The folder of scripts inside an environment. -/
def scriptsDir : String := "bin"

/-- Whether a file name is `python`, followed by nothing, by one digit, or by one digit, a dot and
digits. -/
def isPythonName (s : String) : Bool :=
  match Text.afterStart? "python".toList s.toList with
  | none => false
  | some [] => true
  | some [d] => Text.isDecimalDigit d
  | some (d :: '.' :: ds) => Text.isDecimalDigit d && !ds.isEmpty && ds.all Text.isDecimalDigit
  | some _ => false

/-- Whether the last name of a path is that of an interpreter. -/
def isPythonPath (p : Path) : Bool :=
  p.fileName?.any isPythonName

/-- The interpreter that an environment has by convention. -/
def interpreterIn (home : Path) : Path :=
  home / scriptsDir / "python"

/-- The interpreters that an environment may have, most conventional first. -/
def interpreterCandidates (home : Path) : List Path :=
  [home / scriptsDir / "python", home / scriptsDir / "python3"]

/-- The interpreter of a conda environment. -/
def condaInterpreterIn (home : Path) : Path :=
  home / "bin" / "python"

/-- The home of the environment that owns an executable: the folder around `bin` or `Scripts`, or
else the folder of the executable. -/
def homeOf? (executable : Path) : Option Path := do
  let dir ← executable.parent?
  let name ← dir.fileName?
  if name == "bin" || Text.eqIgnoreCase name "scripts" then dir.parent? else some dir

end EnvDiscovery.Path
