import EnvDiscovery.CommandLine.Parser
import EnvDiscovery.CommandLine.Run
import EnvDiscovery.FileSystem.Snapshot

/-!
**The program.**

It carries out its command line on the machine that the standard input describes: an object with the
files (`files`), the variables (`env`), the working directory (`directory`) and the time in seconds
(`now`).

Main definitions:
* `Workplace.ofJson` — the machine that is described;
* `Workplace.respond` — the report on a command line;
* `main` — reading and writing.
-/

namespace EnvDiscovery

/-- The variables that an object names. -/
def variablesIn : Json → List (String × String)
  | .obj fields => fields.filterMap fun (name, v) => v.asString?.map (name, ·)
  | _ => []

/-- The machine that is described. -/
def Workplace.ofJson (j : Json) : Workplace :=
  let directory : Path := ⟨(FileTree.textIn? j "directory").getD "/"⟩
  let tree := FileTree.empty.write directory (.dir true)
  let tree := (tree.withFiles directory ((j.get? "files").getD .null))
  { disk := ⟨{ tree with cwd := tree.placeOf directory }, []⟩
    host := .ofVariables (variablesIn ((j.get? "env").getD .null))
    directory := directory
    now := match j.get? "now" with
      | some (.int secs) => ⟨secs, 0⟩
      | _ => ⟨0, 0⟩ }

/-- The exit code of a program that cannot go on. -/
def stoppedCode : Nat := 101

/-- The report on a command line. -/
def Workplace.respond (w : Workplace) (args : List String) : RunReport :=
  match CommandLine.parse args with
  | .error u => ⟨u.exitCode, "", ""⟩
  | .ok c =>
    match w.run c with
    | none => ⟨stoppedCode, "", ""⟩
    | some (.ok report, _) => report
    | some (.error f, _) => ⟨f.exitCode, "", f.userMessage false ++ "\n"⟩

end EnvDiscovery

open EnvDiscovery in
/-- Carries out the command line on the machine that the standard input describes. -/
def main (args : List String) : IO UInt32 := do
  let text ← (← IO.getStdin).readToEnd
  let report := (Workplace.ofJson ((Json.parse? text).getD .null)).respond args
  IO.print report.output
  IO.eprint report.errors
  return report.code.toUInt32
