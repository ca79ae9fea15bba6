/-!
**The fewest decimal digits of a double.**

A finite double is `m · 2^q`. The reals that round to it form an interval, which contains its ends
exactly when `m` is even. The digits printed are those of the shortest decimal in the interval; of
several with the same number of digits, the nearest to the double.

Main definitions:
* `Decimal.Binary`, `Decimal.binaryOf` — the significand and exponent of a double;
* `Decimal.Digits` — a decimal `digits · 10^exponent`;
* `Decimal.shortest` — the shortest decimal that rounds to a double.
-/

namespace EnvDiscovery.Decimal

/-- A positive dyadic number `significand · 2^exponent`, and whether the double below it is only
half as far away as the double above. -/
structure Binary where
  significand : Nat
  exponent : Int
  lowerCloser : Bool

/-- The absolute value of a finite double that is not zero. -/
def binaryOf (x : Float) : Binary :=
  let bits := x.toBits.toNat
  let fraction : Nat := bits % Nat.pow 2 52
  let biased : Nat := bits / Nat.pow 2 52 % 2048
  if biased = 0 then ⟨fraction, -1074, false⟩
  else ⟨Nat.pow 2 52 + fraction, (biased : Int) - 1075, fraction = 0 && 1 < biased⟩

/-- A decimal `digits · 10^exponent`. -/
structure Digits where
  digits : Nat
  exponent : Int
deriving DecidableEq, Repr

/-- A double as a fraction over a common denominator: the value, the two ends of its interval, the
denominator, and whether the ends belong to the interval. -/
structure Interval where
  low : Nat
  value : Nat
  high : Nat
  denominator : Nat
  closed : Bool

/-- The interval of reals that round to a double. -/
def Binary.interval (b : Binary) : Interval :=
  let scale := if b.exponent < 0 then 1 else Nat.pow 2 b.exponent.toNat
  let denominator := if b.exponent < 0 then 4 * Nat.pow 2 (-b.exponent).toNat else 4
  let below := if b.lowerCloser then 1 else 2
  ⟨(4 * b.significand - below) * scale, 4 * b.significand * scale, (4 * b.significand + 2) * scale,
    denominator, b.significand % 2 = 0⟩

/-- Whether `digits · 10^exponent` lies in the interval. -/
def Interval.contains (i : Interval) (d : Digits) : Bool :=
  let num := if d.exponent < 0 then d.digits else d.digits * Nat.pow 10 d.exponent.toNat
  let den := if d.exponent < 0 then Nat.pow 10 (-d.exponent).toNat else 1
  let lhs := num * i.denominator
  if i.closed then i.low * den ≤ lhs && lhs ≤ i.high * den
  else i.low * den < lhs && lhs < i.high * den

/-- Twice the distance to the value, over a denominator that depends on the exponent alone. -/
def Interval.distance (i : Interval) (d : Digits) : Nat :=
  let num := if d.exponent < 0 then d.digits else d.digits * Nat.pow 10 d.exponent.toNat
  let den := if d.exponent < 0 then Nat.pow 10 (-d.exponent).toNat else 1
  let a := num * i.denominator
  let b := i.value * den
  (a - b) + (b - a)

/-- The two multiples of `10^exponent` around the value, the lower one first. -/
def Interval.neighbours (i : Interval) (exponent : Int) : Digits × Digits :=
  let num := if exponent < 0 then i.value * Nat.pow 10 (-exponent).toNat else i.value
  let den := if exponent < 0 then i.denominator else i.denominator * Nat.pow 10 exponent.toNat
  (⟨num / den, exponent⟩, ⟨num / den + 1, exponent⟩)

/-- The multiple of `10^exponent` in the interval that is nearest to the value; a tie goes to the
even one. -/
def Interval.nearest? (i : Interval) (exponent : Int) : Option Digits :=
  let (lo, hi) := i.neighbours exponent
  match i.contains lo && 0 < lo.digits, i.contains hi with
  | true, true =>
    if i.distance lo < i.distance hi then some lo
    else if i.distance hi < i.distance lo then some hi
    else if lo.digits % 2 = 0 then some lo else some hi
  | true, false => some lo
  | false, true => some hi
  | false, false => none

/-- The first exponent, counting down, at which the interval contains a multiple. -/
def Interval.search (i : Interval) : Nat → Int → Digits
  | 0, exponent => (i.neighbours exponent).1
  | fuel + 1, exponent =>
    match i.nearest? exponent with
    | some d => d
    | none => i.search fuel (exponent - 1)

/-- Drops trailing zeros into the exponent. -/
def Digits.trim (d : Digits) : Nat → Digits
  | 0 => d
  | fuel + 1 =>
    if d.digits ≠ 0 ∧ d.digits % 10 = 0 then Digits.trim ⟨d.digits / 10, d.exponent + 1⟩ fuel else d

/-- The shortest decimal that rounds to the absolute value of a finite double. The search starts
above the largest double and ends below the smallest. -/
def shortest (x : Float) : Digits :=
  let i := (binaryOf x).interval
  if i.value = 0 then ⟨0, 0⟩ else (i.search 700 310).trim 400

end EnvDiscovery.Decimal
