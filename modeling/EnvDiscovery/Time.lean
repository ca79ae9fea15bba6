/-!
**Points in time.**

Main definitions:
* `Timestamp` — seconds and nanoseconds since 1970, negative seconds for earlier times.
-/

namespace EnvDiscovery

/-- A point in time: whole seconds since the start of 1970 and nanoseconds on top of them. -/
structure Timestamp where
  secs : Int
  nanos : Nat
deriving DecidableEq, Repr

/-- Whether a time lies before 1970. -/
def Timestamp.isBeforeEpoch (t : Timestamp) : Bool :=
  t.secs < 0

end EnvDiscovery
