import EnvDiscovery.Text.Digit

/-!
**Positions in a YAML text.**

Main definitions:
* `Yaml.isBreak`, `Yaml.isSpace` — the characters that end lines and separate words;
* `Yaml.Cursor` — what is left of a text, and the place where it begins;
* `Cursor.skip`, `Cursor.skipBreak` — going on;
* `Cursor.readWhile`, `Cursor.readBreak` — going on and keeping what was passed.
-/

namespace EnvDiscovery.Yaml

/-- Whether a character ends a line. -/
def isBreak (c : Char) : Bool :=
  c == '\n' || c == '\r' || c.toNat == 0x85 || c.toNat == 0x2028 || c.toNat == 0x2029

/-- Whether a character separates words within a line. -/
def isSpace (c : Char) : Bool :=
  c == ' ' || c == '\t'

/-- Whether a character may stand in names of anchors, tags and directives. -/
def isWordChar (c : Char) : Bool :=
  c.isAlphanum || c == '_' || c == '-'

/-- The mark that may open a text. -/
def isByteOrderMark (c : Char) : Bool :=
  c.toNat == 0xFEFF

/-- Whether a character may stand in a text at all. -/
def isAllowed (c : Char) : Bool :=
  let n := c.toNat
  c == '\t' || c == '\n' || c == '\r' || (0x20 ≤ n && n ≤ 0x7E) || n == 0x85 ||
    (0xA0 ≤ n && n ≤ 0xD7FF) || (0xE000 ≤ n && n ≤ 0xFFFD) || 0x10000 ≤ n

/-- What is left of a text, with the line, column and number of its first character. -/
structure Cursor where
  rest : List Char
  line : Nat
  column : Nat
  index : Nat

namespace Cursor

/-- The beginning of a text. -/
def start (cs : List Char) : Cursor := ⟨cs, 0, 0, 0⟩

/-- Whether the text has ended. -/
def atEnd (c : Cursor) : Bool := c.rest.isEmpty

/-- Whether the character at an offset is there and satisfies a property. -/
def has (c : Cursor) (p : Char → Bool) (offset : Nat) : Bool :=
  c.rest[offset]?.any p

/-- Whether the next character is the given one. -/
def isAt (c : Cursor) (x : Char) : Bool :=
  c.rest.head? == some x

/-- Whether there is a space at an offset. -/
def spaceAt (c : Cursor) (offset : Nat) : Bool := c.has isSpace offset

/-- Whether there is a line break at an offset. -/
def breakAt (c : Cursor) (offset : Nat) : Bool := c.has isBreak offset

/-- Whether a word ends at an offset: at a space, a line break or the end. -/
def gapAt (c : Cursor) (offset : Nat) : Bool :=
  c.rest[offset]?.all fun x => isSpace x || isBreak x

/-- Whether a line ends here: at a line break or the end. -/
def lineEnds (c : Cursor) : Bool :=
  c.rest.head?.all isBreak

/-- One character further. -/
def skip (c : Cursor) : Cursor :=
  match c.rest with
  | [] => c
  | _ :: rest => { c with rest := rest, column := c.column + 1, index := c.index + 1 }

/-- Some characters further. -/
def skipBy : Nat → Cursor → Cursor
  | 0, c => c
  | n + 1, c => skipBy n c.skip

/-- Past the characters that satisfy a property. -/
def skipWhile (p : Char → Bool) (c : Cursor) : Cursor :=
  skipBy (c.rest.takeWhile p).length c

/-- The characters that satisfy a property, and the place after them. -/
def readWhile (p : Char → Bool) (c : Cursor) : List Char × Cursor :=
  (c.rest.takeWhile p, c.skipWhile p)

/-- A line break and the place after it. A carriage return, a line feed, both in a row and a
next-line character are one line feed; the two separators stay. -/
def readBreak (c : Cursor) : List Char × Cursor :=
  match c.rest with
  | '\r' :: '\n' :: rest => (['\n'], ⟨rest, c.line + 1, 0, c.index + 2⟩)
  | x :: rest =>
    if isBreak x then
      let text := if x.toNat == 0x2028 || x.toNat == 0x2029 then x else '\n'
      ([text], ⟨rest, c.line + 1, 0, c.index + 1⟩)
    else ([], c)
  | [] => ([], c)

/-- Past a line break. -/
def skipBreak (c : Cursor) : Cursor := c.readBreak.2

/-- Past a comment, if there is one. -/
def skipComment (c : Cursor) : Cursor :=
  if c.isAt '#' then c.skipWhile (!isBreak ·) else c

/-- Whether a line begins here with three dashes or three dots that end a word. -/
def atDocumentMark (c : Cursor) : Bool :=
  c.column == 0 && (c.rest.take 3 == ['-', '-', '-'] || c.rest.take 3 == ['.', '.', '.']) &&
    c.gapAt 3

end Cursor

end EnvDiscovery.Yaml
