import EnvDiscovery.Locator.Scan

/-!
**Machines.**

Main definitions:
* `Machine` — what a search may ask: files, surroundings, programs.
-/

namespace EnvDiscovery

/-- A machine with its files, its user's surroundings and its programs. `program` finds a program on
the search path, and `timeout` is the time a program is allowed. -/
structure Machine extends Surroundings where
  executor : Executor
  program : String → Option Path
  timeout : Duration

/-- Runs a program of the machine within the allowed time. -/
def Machine.run (m : Machine) (program : Path) (args : List String) :
    Traced (Except ProcessFailure Output) :=
  m.executor.call ⟨⟨program, args⟩, m.timeout⟩

end EnvDiscovery
