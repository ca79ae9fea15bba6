import EnvDiscovery.Process

/-!
**Programs with fixed answers.**

Main definitions:
* `ProgramAnswer` — how a run of a program ends;
* `ProgramTable` — answers by whole command line or by program;
* `ProgramTable.executor` — the executor that gives them.
-/

namespace EnvDiscovery

/-- How a run of a program ends. -/
inductive ProgramAnswer where
  | prints (stdout : List UInt8)
  | takesTooLong
  | fails (code : Int) (stderr : String)
  | cannotStart (error : String)
deriving DecidableEq

/-- Answers by whole command line or by program. -/
structure ProgramTable where
  answers : List (String × ProgramAnswer)

namespace ProgramTable

/-- Sets or, with nothing, removes an answer. -/
def assign (t : ProgramTable) (command : String) (a : Option ProgramAnswer) : ProgramTable :=
  ⟨(a.toList.map (command, ·)) ++ t.answers.filter (·.1 != command)⟩

/-- The answer for a command: that of its whole line, else that of its program. -/
def answer? (t : ProgramTable) (c : Command) : Option ProgramAnswer :=
  t.answers.lookup c.display <|> t.answers.lookup c.program.text

/-- What a call gives when its command has an answer. -/
def outcome (call : Call) : Option ProgramAnswer → Except ProcessFailure Output
  | none => .error (.commandNotFound call.command.program.shown none)
  | some (.prints stdout) => .ok ⟨some 0, stdout, []⟩
  | some .takesTooLong => .error (.timeout call.command.display call.timeout)
  | some (.fails code stderr) => .error (.executionFailed call.command.display (some code) stderr)
  | some (.cannotStart error) => .error (.spawnFailed call.command.display error)

/-- The executor that gives the answers of the table. -/
def executor (t : ProgramTable) : Executor where
  run call := outcome call (t.answer? call.command)

end ProgramTable

end EnvDiscovery
