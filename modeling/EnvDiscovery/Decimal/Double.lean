import EnvDiscovery.Decimal.Shortest
import EnvDiscovery.Text.Digit

/-!
**Doubles as decimal text.**

Reading takes the digits that fit into 64 bits as a significand and scales it by one power of ten;
writing gives the fewest digits, positionally from `1e-5` up to `1e16`.

Main definitions:
* `Decimal.scale?` — a significand scaled by a power of ten, unless it is too large;
* `Decimal.render` — the text of a finite double.
-/

namespace EnvDiscovery.Decimal

/-- The largest power of ten that is a finite double. -/
def maxPower : Nat := 308

/-- The power of ten, for exponents up to `maxPower`. -/
def power (n : Nat) : Float :=
  Float.ofScientific 1 false n

/-- Divides by powers of ten until the exponent is small enough for a single division. -/
def divide : Nat → Float → Nat → Float
  | 0, x, _ => x
  | fuel + 1, x, n =>
    if n ≤ maxPower then x / power n
    else if x == 0 then x
    else divide fuel (x / power maxPower) (n - maxPower)

/-- A significand below `2^64` scaled by a power of ten; none if the result is infinite. -/
def scale? (significand : Nat) (exponent : Int) : Option Float :=
  let x := (UInt64.ofNat significand).toFloat
  if exponent < 0 then some (divide ((-exponent).toNat / maxPower + 1) x (-exponent).toNat)
  else if exponent.toNat ≤ maxPower then
    let y := x * power exponent.toNat
    if y.isInf then none else some y
  else if x == 0 then some x
  else none

/-- The absolute value of a double in text: positional for a decimal point between the sixth place
left of the digits and the seventeenth place, with an exponent otherwise. -/
def renderDigits (d : Digits) : String :=
  let ds := Text.decimalChars d.digits
  let point : Int := ds.length + d.exponent
  if 0 ≤ d.exponent ∧ point ≤ 16 then
    String.ofList (ds ++ List.replicate d.exponent.toNat '0') ++ ".0"
  else if 0 < point ∧ point ≤ 16 then
    String.ofList (ds.take point.toNat) ++ "." ++ String.ofList (ds.drop point.toNat)
  else if -5 < point ∧ point ≤ 0 then
    "0." ++ String.ofList (List.replicate (-point).toNat '0' ++ ds)
  else
    let head := String.ofList (ds.take 1)
    let tail := if ds.length = 1 then "" else "." ++ String.ofList (ds.drop 1)
    let e := point - 1
    head ++ tail ++ "e" ++ (if e < 0 then "-" else "") ++ Text.decimal e.natAbs

/-- The text of a finite double. -/
def render (x : Float) : String :=
  let sign := if x.toBits.toNat / 9223372036854775808 = 1 then "-" else ""
  sign ++ (if x == 0 then "0.0" else renderDigits (shortest x))

end EnvDiscovery.Decimal
