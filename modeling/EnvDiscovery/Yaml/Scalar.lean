import EnvDiscovery.Yaml.Cursor

/-!
**Scalars in a YAML text.**

A scalar is plain, quoted in one of two ways, or a block of lines. Line breaks inside a scalar fold:
one break is a space, and further breaks stay.

Main definitions:
* `Yaml.ScalarStyle` — how a scalar is written;
* `Yaml.Folding` — the white space that a scalar has passed and not yet taken over;
* `Yaml.scanPlain`, `Yaml.scanQuoted`, `Yaml.scanBlock` — the text of a scalar and the place after
  it.
-/

namespace EnvDiscovery.Yaml

/-- How a scalar is written. -/
inductive ScalarStyle where
  | plain
  | singleQuoted
  | doubleQuoted
  | literal
  | folded
deriving DecidableEq, Repr

/-! ### White space inside scalars -/

/-- White space that was passed: spaces before the first line break, that break, and further breaks.
`broken` tells whether a line break has been passed. -/
structure Folding where
  spaces : List Char
  first : List Char
  further : List Char
  broken : Bool

namespace Folding

/-- Nothing was passed. -/
def none : Folding := ⟨[], [], [], false⟩

/-- What the white space becomes inside a scalar. -/
def text (f : Folding) : List Char :=
  if f.broken then
    if f.first == ['\n'] then
      if f.further.isEmpty then [' '] else f.further
    else f.first ++ f.further
  else f.spaces

/-- Takes a space. After a line break it counts for nothing. -/
def space (f : Folding) (x : Char) : Folding :=
  if f.broken then f else { f with spaces := f.spaces ++ [x] }

/-- Takes a line break. -/
def lineBreak (f : Folding) (text : List Char) : Folding :=
  if f.broken then { f with further := f.further ++ text }
  else { f with spaces := [], first := text, broken := true }

end Folding

/-- Passes spaces and line breaks. A tab that stands in the indentation of a later line is refused
if the indentation is given. -/
def passGap (indent : Option Int) : Nat → Cursor → Folding → Option (Cursor × Folding)
  | 0, c, f => some (c, f)
  | fuel + 1, c, f =>
    match c.rest with
    | [] => some (c, f)
    | x :: _ =>
      if isSpace x then
        if f.broken && x == '\t' && indent.any (fun i => (c.column : Int) < i) then none
        else passGap indent fuel c.skip (f.space x)
      else if isBreak x then
        let (text, c) := c.readBreak
        passGap indent fuel c (f.lineBreak text)
      else some (c, f)

/-! ### Plain scalars -/

/-- The characters that belong to a collection in brackets. -/
def isFlowIndicator (x : Char) : Bool :=
  x == ',' || x == '[' || x == ']' || x.toNat == 0x7B || x.toNat == 0x7D

/-- Whether a plain scalar ends here within a line. -/
def plainEnds (inFlow : Bool) (c : Cursor) : Bool :=
  (c.isAt ':' && c.gapAt 1) || (inFlow && c.has isFlowIndicator 0)

/-- Whether a colon stands where a collection in brackets does not allow it. -/
def strayColon (inFlow : Bool) (c : Cursor) : Bool :=
  inFlow && c.isAt ':' && c.has (fun x => isFlowIndicator x || x == '?') 1

/-- The characters of one word of a plain scalar. -/
def plainWord (inFlow : Bool) : Nat → Cursor → Option (List Char × Cursor)
  | 0, c => some ([], c)
  | fuel + 1, c =>
    match c.rest with
    | [] => some ([], c)
    | x :: _ =>
      if isSpace x || isBreak x then some ([], c)
      else if strayColon inFlow c then none
      else if plainEnds inFlow c then some ([], c)
      else (plainWord inFlow fuel c.skip).map fun (word, c) => (x :: word, c)

/-- The words of a plain scalar after some white space. Gives also whether a line break was passed
since the last word. -/
def plainWords (inFlow : Bool) (indent : Int) : Nat → Cursor → Folding →
    Option (List Char × Cursor × Bool)
  | 0, c, f => some ([], c, f.broken)
  | fuel + 1, c, f =>
    if c.atDocumentMark || c.isAt '#' then some ([], c, f.broken)
    else
      match plainWord inFlow c.rest.length c with
      | none => none
      | some (word, after) =>
        let text := if word.isEmpty then [] else f.text ++ word
        let f := if word.isEmpty then f else .none
        if !(after.spaceAt 0 || after.breakAt 0) then some (text, after, f.broken)
        else
          match passGap (some indent) after.rest.length after f with
          | none => none
          | some (c, f) =>
            if !inFlow && c.column < indent then some (text, c, f.broken)
            else (plainWords inFlow indent fuel c f).map fun (more, rest) => (text ++ more, rest)

/-- A plain scalar; `indent` is that of the collection around it. Gives also whether a line break
follows. -/
def scanPlain (inFlow : Bool) (indent : Int) (c : Cursor) : Option (List Char × Cursor × Bool) :=
  plainWords inFlow (indent + 1) (c.rest.length + 1) c .none

/-! ### Quoted scalars -/

/-- The character that a letter after a backslash stands for. -/
def escaped? : Char → Option Char
  | '0' => some (Char.ofNat 0)
  | 'a' => some (Char.ofNat 7)
  | 'b' => some (Char.ofNat 8)
  | 't' | '\t' => some '\t'
  | 'n' => some '\n'
  | 'v' => some (Char.ofNat 11)
  | 'f' => some (Char.ofNat 12)
  | 'r' => some '\r'
  | 'e' => some (Char.ofNat 27)
  | ' ' => some ' '
  | '"' => some '"'
  | '/' => some '/'
  | '\\' => some '\\'
  | 'N' => some (Char.ofNat 0x85)
  | '_' => some (Char.ofNat 0xA0)
  | 'L' => some (Char.ofNat 0x2028)
  | 'P' => some (Char.ofNat 0x2029)
  | _ => none

/-- The number of hexadecimal digits that a letter after a backslash asks for. -/
def escapeWidth? : Char → Option Nat
  | 'x' => some 2
  | 'u' => some 4
  | 'U' => some 8
  | _ => none

/-- The character of a number, unless the number is none. -/
def charOfCode? (n : Nat) : Option Char :=
  if n ≤ 0x10FFFF && !(0xD800 ≤ n && n ≤ 0xDFFF) then some (Char.ofNat n) else none

/-- The value of a number of hexadecimal digits. -/
def hexCode? (width : Nat) (cs : List Char) : Option Nat :=
  if cs.length < width then none
  else (cs.take width).foldl (fun n d => do return (← n) * 16 + (← Text.hexValue? d)) (some 0)

/-- The character of an escape, and the place after it. -/
def scanEscape (c : Cursor) : Option (Char × Cursor) := do
  let letter ← c.rest[1]?
  match escapeWidth? letter with
  | some width =>
    let code ← hexCode? width (c.rest.drop 2)
    some (← charOfCode? code, c.skipBy (2 + width))
  | none => some (← escaped? letter, c.skipBy 2)

/-- The characters of one word of a quoted scalar, and whether an escaped line break ended it. -/
def quotedWord (single : Bool) : Nat → Cursor → Option (List Char × Cursor × Bool)
  | 0, c => some ([], c, false)
  | fuel + 1, c =>
    match c.rest with
    | [] => some ([], c, false)
    | x :: _ =>
      if isSpace x || isBreak x then some ([], c, false)
      else if single && x == '\'' && c.has (· == '\'') 1 then
        (quotedWord single fuel (c.skipBy 2)).map fun (word, rest) => ('\'' :: word, rest)
      else if x == (if single then '\'' else '"') then some ([], c, false)
      else if !single && x == '\\' then
        if c.breakAt 1 then some ([], c.skip.skipBreak, true)
        else
          match scanEscape c with
          | none => none
          | some (y, c) => (quotedWord single fuel c).map fun (word, rest) => (y :: word, rest)
      else (quotedWord single fuel c.skip).map fun (word, rest) => (x :: word, rest)

/-- The words of a quoted scalar up to its closing quote, and the place after that. -/
def quotedWords (single : Bool) : Nat → Cursor → Option (List Char × Cursor)
  | 0, _ => none
  | fuel + 1, c =>
    if c.atDocumentMark || c.atEnd then none
    else
      match quotedWord single c.rest.length c with
      | none => none
      | some (word, after, escapedBreak) =>
        if after.isAt (if single then '\'' else '"') then some (word, after.skip)
        else
          match passGap Option.none after.rest.length after
            { Folding.none with broken := escapedBreak } with
          | none => none
          | some (c, f) =>
            (quotedWords single fuel c).map fun (more, rest) => (word ++ f.text ++ more, rest)

/-- A quoted scalar that begins with its quote. -/
def scanQuoted (single : Bool) (c : Cursor) : Option (List Char × Cursor) :=
  quotedWords single (c.rest.length + 1) c.skip

/-! ### Blocks -/

/-- What happens to the line breaks at the end of a block. -/
inductive Chomping where
  | strip
  | clip
  | keep
deriving DecidableEq, Repr

/-- The sign of a chomping. -/
def chomping? (c : Cursor) : Option Chomping :=
  if c.isAt '+' then some .keep else if c.isAt '-' then some .strip else none

/-- The digit of an indentation, if there is one: nothing is refused but a zero. -/
def scanIncrement (c : Cursor) : Option (Nat × Cursor) :=
  match c.rest.head? with
  | some x =>
    if x == '0' then none
    else if x.isDigit then some (x.toNat - '0'.toNat, c.skip)
    else some (0, c)
  | none => some (0, c)

/-- The signs after the indicator of a block, in either order: a chomping and an indentation. -/
def scanBlockSigns (c : Cursor) : Option (Chomping × Nat × Cursor) :=
  match chomping? c with
  | some chomping => (scanIncrement c.skip).map fun (n, c) => (chomping, n, c)
  | none =>
    match scanIncrement c with
    | none => none
    | some (0, c) => some (.clip, 0, c)
    | some (n, c) =>
      match chomping? c with
      | some chomping => some (chomping, n, c.skip)
      | none => some (.clip, n, c)

/-- Passes spaces up to a column; the column zero stands for any. -/
def passIndent (indent : Nat) (c : Cursor) : Cursor :=
  let spaces := (c.rest.takeWhile (· == ' ')).length
  if indent == 0 then Cursor.skipBy spaces c else Cursor.skipBy (min spaces (indent - c.column)) c

/-- Passes empty lines. Gives the line breaks and the deepest column that was reached; a tab in the
indentation is refused. -/
def passEmptyLines (indent : Nat) : Nat → Cursor → Nat → Option (List Char × Cursor × Nat)
  | 0, c, deepest => some ([], c, deepest)
  | fuel + 1, c, deepest =>
    let c := passIndent indent c
    let deepest := max deepest c.column
    if (indent == 0 || c.column < indent) && c.isAt '\t' then none
    else if !c.breakAt 0 then some ([], c, deepest)
    else
      let (text, c) := c.readBreak
      (passEmptyLines indent fuel c deepest).map fun (more, rest) => (text ++ more, rest)

/-- The lines of a block. `lead` is the line break before, `empty` are those of empty lines after
it, and `indented` tells whether the line before began with a space. Gives the text and what is left
to chomp. -/
def blockLines (literal : Bool) (indent : Nat) : Nat → Cursor → List Char → List Char → Bool →
    Option (List Char × List Char × List Char × Cursor)
  | 0, c, lead, empty, _ => some ([], lead, empty, c)
  | fuel + 1, c, lead, empty, indented =>
    if c.column != indent || c.atEnd then some ([], lead, empty, c)
    else
      let begins := c.spaceAt 0
      let joint :=
        if !literal && lead == ['\n'] && !indented && !begins then
          (if empty.isEmpty then [' '] else []) ++ empty
        else lead ++ empty
      let (line, c) := c.readWhile (!isBreak ·)
      let (lead, c) := c.readBreak
      match passEmptyLines indent c.rest.length c 0 with
      | none => none
      | some (empty, c, _) =>
        (blockLines literal indent fuel c lead empty begins).map fun (text, rest) =>
          (joint ++ line ++ text, rest)

/-- A block of lines that begins with its indicator; `indent` is that of the collection around
it. -/
def scanBlock (literal : Bool) (indent : Int) (c : Cursor) : Option (List Char × Cursor) := do
  let (chomping, increment, c) ← scanBlockSigns c.skip
  let c := (c.skipWhile isSpace).skipComment
  if !c.lineEnds then none
  let c := c.skipBreak
  let given := if increment == 0 then 0 else (max indent 0).toNat + increment
  let (empty, c, deepest) ← passEmptyLines given (c.rest.length + 1) c 0
  let column := if given == 0 then max (max deepest (indent + 1).toNat) 1 else given
  let (text, lead, empty, c) ← blockLines literal column (c.rest.length + 1) c [] empty false
  let tail := match chomping with
    | .strip => []
    | .clip => lead
    | .keep => lead ++ empty
  some (text ++ tail, c)

end EnvDiscovery.Yaml
