import EnvDiscovery.Decimal.Double
import EnvDiscovery.Json.Value
import EnvDiscovery.Text.Blank

/-!
**JSON texts.**

A text is first read as it is written, with escapes and digits unevaluated. Evaluation then gives
the value, and fails where the text has none: for a surrogate that stands alone, for a number that
no double holds, and for nesting that is too deep. A part that nobody asks for is never evaluated.

Main definitions:
* `Json.Piece`, `Json.Numeral`, `Json.Written` — JSON as it is written;
* `Json.readWritten?` — the written form of a whole text;
* `Json.Written.eval?` — its value, for a given allowance of nesting;
* `Json.parse?` — the value of a text.
-/

namespace EnvDiscovery.Json

/-! ### Written form -/

/-- A character of a string, or a code unit given by its number. -/
inductive Piece where
  | char (c : Char)
  | unit (n : Nat)
deriving DecidableEq, Repr

/-- A number as it is written: sign, digits before and after the point, sign and digits of the
exponent. -/
structure Numeral where
  negative : Bool
  whole : List Char
  fraction : Option (List Char)
  exponent : Option (Bool × List Char)
deriving DecidableEq, Repr

/-- A JSON value as it is written. -/
inductive Written where
  | null
  | bool (b : Bool)
  | number (n : Numeral)
  | text (pieces : List Piece)
  | list (items : List Written)
  | record (fields : List (List Piece × Written))
deriving Inhabited

/-! ### Reading -/

/-- Whether a character may stand between the tokens. -/
def isSpace (c : Char) : Bool :=
  c == ' ' || c == '\t' || c == '\n' || c == '\r'

/-- Passes over the space before a token. -/
def skipSpace (cs : List Char) : List Char :=
  cs.dropWhile isSpace

/-- The number that four hexadecimal digits write. -/
def fourHex (a b c d : Char) : Option Nat := do
  let a ← Text.hexValue? a
  let b ← Text.hexValue? b
  let c ← Text.hexValue? c
  let d ← Text.hexValue? d
  some (((a * 16 + b) * 16 + c) * 16 + d)

/-- The character that a one-letter escape stands for. -/
def escaped? : Char → Option Char
  | '"' => some '"'
  | '\\' => some '\\'
  | '/' => some '/'
  | 'b' => some '\x08'
  | 'f' => some '\x0C'
  | 'n' => some '\n'
  | 'r' => some '\r'
  | 't' => some '\t'
  | _ => none

/-- The pieces of a string after its opening quote, and what follows its closing quote. -/
def readPieces (acc : List Piece) : List Char → Option (List Piece × List Char)
  | [] => none
  | '"' :: rest => some (acc.reverse, rest)
  | '\\' :: 'u' :: a :: b :: c :: d :: rest =>
    match fourHex a b c d with
    | some n => readPieces (.unit n :: acc) rest
    | none => none
  | '\\' :: c :: rest =>
    match escaped? c with
    | some e => readPieces (.char e :: acc) rest
    | none => none
  | c :: rest => if c.toNat < 0x20 || c == '\\' then none else readPieces (.char c :: acc) rest

/-- One or more digits. -/
def readDigits (cs : List Char) : Option (List Char × List Char) :=
  match cs.takeWhile Char.isDigit with
  | [] => none
  | ds => some (ds, cs.dropWhile Char.isDigit)

/-- The part of a number after a point, if there is a point. -/
def readFraction : List Char → Option (Option (List Char) × List Char)
  | '.' :: cs => (readDigits cs).map fun (ds, rest) => (some ds, rest)
  | cs => some (none, cs)

/-- The sign of an exponent: true when it is negative. -/
def readSign : List Char → Bool × List Char
  | '+' :: cs => (false, cs)
  | '-' :: cs => (true, cs)
  | cs => (false, cs)

/-- The exponent of a number, if it has one. -/
def readExponent : List Char → Option (Option (Bool × List Char) × List Char)
  | c :: cs =>
    if c == 'e' || c == 'E' then
      let (negative, rest) := readSign cs
      (readDigits rest).map fun (ds, rest) => (some (negative, ds), rest)
    else some (none, c :: cs)
  | [] => some (none, [])

/-- A number without its sign. A leading zero stands alone before the point. -/
def readNumeral (negative : Bool) (cs : List Char) : Option (Numeral × List Char) := do
  let (whole, rest) ← readDigits cs
  if whole.length ≠ 1 && whole.head? == some '0' then none
  let (fraction, rest) ← readFraction rest
  let (exponent, rest) ← readExponent rest
  some (⟨negative, whole, fraction, exponent⟩, rest)

mutual

/-- Reads one value after optional space. -/
def readValue : Nat → List Char → Option (Written × List Char)
  | 0, _ => none
  | fuel + 1, cs =>
    match skipSpace cs with
    | 'n' :: 'u' :: 'l' :: 'l' :: rest => some (.null, rest)
    | 't' :: 'r' :: 'u' :: 'e' :: rest => some (.bool true, rest)
    | 'f' :: 'a' :: 'l' :: 's' :: 'e' :: rest => some (.bool false, rest)
    | '"' :: rest => (readPieces [] rest).map fun (pieces, rest) => (.text pieces, rest)
    | '[' :: rest =>
      match skipSpace rest with
      | ']' :: rest => some (.list [], rest)
      | rest => (readItems fuel [] rest).map fun (items, rest) => (.list items, rest)
    | '{' :: rest =>
      match skipSpace rest with
      | '}' :: rest => some (.record [], rest)
      | rest => (readFields fuel [] rest).map fun (fields, rest) => (.record fields, rest)
    | '-' :: rest => (readNumeral true rest).map fun (n, rest) => (.number n, rest)
    | rest => (readNumeral false rest).map fun (n, rest) => (.number n, rest)

/-- Reads one or more values with commas between them, up to the closing bracket. -/
def readItems : Nat → List Written → List Char → Option (List Written × List Char)
  | 0, _, _ => none
  | fuel + 1, acc, cs =>
    match readValue fuel cs with
    | none => none
    | some (v, rest) =>
      match skipSpace rest with
      | ',' :: rest => readItems fuel (v :: acc) rest
      | ']' :: rest => some ((v :: acc).reverse, rest)
      | _ => none

/-- Reads one or more named values with commas between them, up to the closing brace. -/
def readFields : Nat → List (List Piece × Written) → List Char →
    Option (List (List Piece × Written) × List Char)
  | 0, _, _ => none
  | fuel + 1, acc, cs =>
    match skipSpace cs with
    | '"' :: rest =>
      match readPieces [] rest with
      | none => none
      | some (name, rest) =>
        match skipSpace rest with
        | ':' :: rest =>
          match readValue fuel rest with
          | none => none
          | some (v, rest) =>
            match skipSpace rest with
            | ',' :: rest => readFields fuel ((name, v) :: acc) rest
            | '}' :: rest => some (((name, v) :: acc).reverse, rest)
            | _ => none
        | _ => none
    | _ => none

end

/-- The written form of a text that is one value with space around it. -/
def readWritten? (cs : List Char) : Option Written :=
  match readValue (2 * cs.length + 2) cs with
  | some (w, rest) => if (skipSpace rest).isEmpty then some w else none
  | none => none

/-! ### Evaluation -/

/-- The characters of a string. Two code units in a row may make up one character; a surrogate that
is not part of such a pair has no character. -/
def charsOf? : List Piece → Option (List Char)
  | [] => some []
  | .char c :: rest => (charsOf? rest).map (c :: ·)
  | .unit n :: .unit m :: rest =>
    if 0xD800 ≤ n ∧ n < 0xDC00 then
      if 0xDC00 ≤ m ∧ m < 0xE000 then
        (charsOf? rest).map (Char.ofNat (0x10000 + (n - 0xD800) * 0x400 + (m - 0xDC00)) :: ·)
      else none
    else if 0xDC00 ≤ n ∧ n < 0xE000 then none
    else (charsOf? (.unit m :: rest)).map (Char.ofNat n :: ·)
  | .unit n :: rest =>
    if 0xD800 ≤ n ∧ n < 0xE000 then none else (charsOf? rest).map (Char.ofNat n :: ·)

/-- A string that has characters. -/
def stringOf? (pieces : List Piece) : Option String :=
  (charsOf? pieces).map String.ofList

/-- One above the largest significand. -/
def significandBound : Nat := UInt64.size

/-- Takes digits into a significand as long as it stays below the bound. -/
def takeDigits (significand : Nat) : List Char → Nat × List Char
  | [] => (significand, [])
  | d :: ds =>
    let next := significand * 10 + (d.toNat - '0'.toNat)
    if next < significandBound then takeDigits next ds else (significand, d :: ds)

/-- One above the largest exponent that is evaluated. -/
def exponentBound : Nat := 2147483648

/-- A double from its parts; the sign also shows on zero. -/
def signed (negative : Bool) (x : Float) : Json :=
  .float (if negative then -x else x)

/-- The value of a number: exact for an integer in range, a double otherwise. -/
def Numeral.eval? (n : Numeral) : Option Json :=
  let (m, overflow) := takeDigits 0 n.whole
  match n.fraction, n.exponent, overflow with
  | none, none, [] =>
    if !n.negative then some (.int m)
    else if 0 < m ∧ m ≤ 9223372036854775808 then some (.int (-(m : Int)))
    else some (signed true (UInt64.ofNat m).toFloat)
  | fraction, exponent, _ =>
    let ds := fraction.getD []
    let (m, ignored) := takeDigits m ds
    let start : Int := (overflow.length : Int) - ((ds.length - ignored.length : Nat) : Int)
    match exponent with
    | none => (Decimal.scale? m start).map (signed n.negative)
    | some (down, es) =>
      let e := Text.valueOfDigits es
      if e < exponentBound then
        (Decimal.scale? m (if down then start - e else start + e)).map (signed n.negative)
      else if m ≠ 0 ∧ !down then none
      else some (signed n.negative 0)

mutual

/-- The value of a written form, with `depth - 1` levels of nesting allowed. -/
def Written.eval? (depth : Nat) : Written → Option Json
  | .null => some .null
  | .bool b => some (.bool b)
  | .number n => n.eval?
  | .text pieces => (stringOf? pieces).map .str
  | .list items => if 1 < depth then (evalItems (depth - 1) items).map .arr else none
  | .record fields => if 1 < depth then (evalFields (depth - 1) [] fields).map .obj else none

/-- The values of the items of a list. -/
def evalItems (depth : Nat) : List Written → Option (List Json)
  | [] => some []
  | w :: rest =>
    match w.eval? depth with
    | none => none
    | some v => (evalItems depth rest).map (v :: ·)

/-- The fields of a record added to those before; a later field replaces an earlier one of its
name. -/
def evalFields (depth : Nat) (acc : List (String × Json)) :
    List (List Piece × Written) → Option (List (String × Json))
  | [] => some acc
  | (name, w) :: rest =>
    match stringOf? name, w.eval? depth with
    | some name, some v => evalFields depth (setField acc name v) rest
    | _, _ => none

end

/-- The levels of nesting that a text may have, plus one. -/
def depthLimit : Nat := 128

/-- The value of a JSON text. -/
def parse? (s : String) : Option Json :=
  (readWritten? s.toList).bind (Written.eval? depthLimit)

end EnvDiscovery.Json
