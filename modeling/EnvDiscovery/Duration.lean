import EnvDiscovery.Text.Blank
import EnvDiscovery.Text.Digit

/-!
**Spans of time.**

Main definitions:
* `Duration` — seconds and nanoseconds;
* `Duration.render` — the text of a span in the largest unit of which it has one, without trailing
  zeros.
-/

namespace EnvDiscovery

/-- A span of time: whole seconds and nanoseconds below one second. -/
structure Duration where
  secs : Nat
  nanos : Nat
deriving DecidableEq, Repr

namespace Duration

/-- A span of whole seconds. -/
def ofSecs (n : Nat) : Duration := ⟨n, 0⟩

/-- A span of milliseconds. -/
def ofMillis (n : Nat) : Duration := ⟨n / 1000, n % 1000 * 1000000⟩

/-- The nanoseconds of the whole span. -/
def totalNanos (d : Duration) : Nat :=
  d.secs * 1000000000 + d.nanos

/-- The milliseconds of the whole span, rounded down. -/
def toMillis (d : Duration) : Nat :=
  d.totalNanos / 1000000

/-- A number with `places` decimal places given as a whole number, without trailing zeros. -/
def renderParts (whole part places : Nat) : String :=
  let digits := Text.dropEndWhile (· == '0') (Text.decimalPadded places part).toList
  if digits.isEmpty then Text.decimal whole else Text.decimal whole ++ "." ++ String.ofList digits

/-- The text of a span. -/
def render (d : Duration) : String :=
  if 0 < d.secs then renderParts d.secs d.nanos 9 ++ "s"
  else if 1000000 ≤ d.nanos then renderParts (d.nanos / 1000000) (d.nanos % 1000000) 6 ++ "ms"
  else if 1000 ≤ d.nanos then renderParts (d.nanos / 1000) (d.nanos % 1000) 3 ++ "µs"
  else Text.decimal d.nanos ++ "ns"

end Duration

end EnvDiscovery
