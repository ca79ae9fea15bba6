import EnvDiscovery.Failure
import EnvDiscovery.Text.Utf8

/-!
**Running programs.**

Main definitions:
* `Command`, `Command.display` — a program with its arguments, and the line that shows it;
* `Output` — what a successful run leaves;
* `Executor` — the answers of the programs of a machine;
* `Call` — a command together with the time it was allowed;
* `Traced` — a result together with the calls that were made for it.
-/

namespace EnvDiscovery

/-- A program and its arguments. -/
structure Command where
  program : Path
  args : List String
deriving DecidableEq, Repr

/-- The command on one line. -/
def Command.display (c : Command) : String :=
  " ".intercalate (c.program.shown :: c.args.map Text.shown)

/-- What a program that succeeded leaves. -/
structure Output where
  exitCode : Option Int
  stdout : List UInt8
  stderr : List UInt8
deriving DecidableEq

/-- The output as text. -/
def Output.text (o : Output) : String :=
  Text.decodeLossy o.stdout

/-- The error output as text. -/
def Output.errorText (o : Output) : String :=
  Text.decodeLossy o.stderr

/-- A command and the time it is allowed. -/
structure Call where
  command : Command
  timeout : Duration
deriving DecidableEq

/-- The answers that programs give. Only a program that ends with status zero succeeds. -/
structure Executor where
  run : Call → Except ProcessFailure Output

/-- A result and the calls that were made for it, in order. -/
structure Traced (α : Type) where
  value : α
  calls : List Call

namespace Traced

/-- A result that needed no call. -/
def pure {α : Type} (a : α) : Traced α := ⟨a, []⟩

/-- One result after another. -/
def bind {α β : Type} (x : Traced α) (f : α → Traced β) : Traced β :=
  ⟨(f x.value).value, x.calls ++ (f x.value).calls⟩

instance : Monad Traced where
  pure := Traced.pure
  bind := Traced.bind

end Traced

/-- Runs a program and notes the call. -/
def Executor.call (x : Executor) (c : Call) : Traced (Except ProcessFailure Output) :=
  ⟨x.run c, [c]⟩

/-- The time that a program is allowed when nothing else is said. -/
def defaultTimeout : Duration := .ofSecs 15

end EnvDiscovery
