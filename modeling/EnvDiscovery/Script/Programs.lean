import EnvDiscovery.FileSystem.Basic
import EnvDiscovery.Host
import EnvDiscovery.Process
import EnvDiscovery.Script.Run

/-!
**Machines whose programs are scripts.**

A file is a program if it begins with the mark of a script for the shell. Besides, a machine has a
few utilities in its system directories.

Main definitions:
* `Programs.find` — a program on the search path;
* `Programs.start` — starting a program;
* `Programs.executor` — running programs;
* `Programs.links` — the links that a call makes.
-/

namespace EnvDiscovery.Programs

open Script (Outcome)

/-- The directories of the system. -/
def systemDirs : List Path := [⟨"/bin"⟩, ⟨"/usr/bin"⟩]

/-- The utilities in the directories of the system. -/
def utilities : List String := ["sh", "sleep", "cat", "true", "false", "echo", "printf", "ln"]

/-- The directories of the search path. -/
def searchDirs (h : Host) : List Path :=
  match h.var "PATH" with
  | none => systemDirs
  | some s => Host.splitPathList s

/-- Whether a name has more than one component. -/
def hasSlash (name : String) : Bool := name.toList.contains '/'

/-- The utility that a name stands for. -/
def utility? (h : Host) (name : String) : Option String :=
  utilities.find? fun u =>
    if hasSlash name then systemDirs.any fun dir => (⟨name⟩ : Path).samePlace (dir / u)
    else name == u && (searchDirs h).any fun dir => systemDirs.any (·.samePlace dir)

/-- The interpreter that the first line of a script names. -/
def interpreterOf (text : String) : Option String :=
  match text.toList with
  | '#' :: '!' :: rest => some (Text.trim (String.ofList (rest.takeWhile (· != '\n'))))
  | _ => none

/-- The interpreters that are shells. -/
def shells : List String :=
  ["/bin/sh", "/usr/bin/sh", "/bin/dash", "/usr/bin/dash", "/bin/bash", "/usr/bin/bash",
    "/usr/bin/env sh", "/usr/bin/env bash"]

/-- Whether a path leads to a file that may be run. -/
def isExecutable (fs : FileSystem) (p : Path) : Bool :=
  fs.isFile p && ((fs.readText p).bind interpreterOf).isSome

/-- The first file of a name on the search path that may be run. -/
def find (fs : FileSystem) (h : Host) (name : String) : Option Path :=
  ((searchDirs h).map (· / name)).find? (isExecutable fs)

/-- The failure of starting a file that may not be run. -/
def notPermitted : String := "Permission denied (os error 13)"

/-- A run with a name and arguments, and with the variables and the files of the machine. -/
def newRun (fs : FileSystem) (h : Host) (name : String) (args : List String) : Script.Run :=
  .start name args h.vars (utility? h) fun file => fs.readText ⟨file⟩

/-- The outcome of a script. -/
def runWith (fs : FileSystem) (h : Host) (name : String) (args : List String) (script : String) :
    Outcome :=
  Script.runScript script (newRun fs h name args)

/-- The outcome of the shell. -/
def runShell (fs : FileSystem) (h : Host) : List String → Outcome
  | [] => ⟨some 0, [], [], some 0, []⟩
  | ["-c"] => ⟨some 2, [], Text.rawBytes "sh: 0: -c requires an argument\n", some 0, []⟩
  | "-c" :: script :: rest => runWith fs h (rest.headD "sh") rest.tail script
  | file :: rest =>
    if file.startsWith "-" then runShell fs h rest
    else
      match fs.readText ⟨file⟩ with
      | some script => runWith fs h file rest script
      | none =>
        ⟨some 2, [], Text.rawBytes ("sh: 0: cannot open " ++ file ++ ": No such file\n"), some 0,
          []⟩

/-- The outcome of a utility. -/
def runUtility (fs : FileSystem) (h : Host) (name : String) (args : List String) : Outcome :=
  if name == "sh" then runShell fs h args
  else
    (Script.externalUtility .plain (newRun fs h name args) name args).outcome

/-- The outcome of starting a program, or why it cannot be started: no program of the name, or a
file that may not be run. -/
def start (fs : FileSystem) (h : Host) (c : Command) : Except ProcessFailure Outcome :=
  let name := c.program.text
  let missing : ProcessFailure := .commandNotFound c.program.shown none
  let file := if hasSlash name then some c.program else find fs h name
  match file.bind fun p => (fs.stat p).map (p, ·) with
  | some (p, stat) =>
    match stat.isDir, (fs.readText p).bind fun text => (interpreterOf text).map (text, ·) with
    | false, some (text, interpreter) =>
      if shells.contains interpreter then .ok (runWith fs h name c.args text) else .error missing
    | _, _ => .error (.spawnFailed c.display notPermitted)
  | none =>
    match utility? h name with
    | some u => .ok (runUtility fs h u c.args)
    | none => .error missing

/-- What a call gives: a run that takes too long is cut off, and only the status zero is a
success. -/
def finish (call : Call) (o : Outcome) : Except ProcessFailure Output :=
  if o.elapsed.all (call.timeout.totalNanos ≤ ·) then
    .error (.timeout call.command.display call.timeout)
  else if o.status = some 0 then .ok ⟨some 0, o.output, o.errors⟩
  else .error (.executionFailed call.command.display (o.status.map Int.ofNat)
    (Text.trim (Text.decodeLossy o.errors)))

/-- Runs the programs of a machine. -/
def executor (fs : FileSystem) (h : Host) : Executor where
  run call :=
    match start fs h call.command with
    | .error f => .error f
    | .ok o => finish call o

/-- The names and targets of the links that a call makes. -/
def links (fs : FileSystem) (h : Host) (call : Call) : List (String × String) :=
  match start fs h call.command with
  | .error _ => []
  | .ok o => o.links

end EnvDiscovery.Programs
