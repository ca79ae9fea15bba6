import EnvDiscovery.Text.Utf8
import EnvDiscovery.Yaml.Scalar

/-!
**Tokens of a YAML text.**

Indentation and brackets become tokens of their own. A word may turn out to be the key of a mapping
only when a colon follows, so a place is kept before every word that may be one, and the colon fills
it.

Main definitions:
* `Yaml.Token` — tokens;
* `Yaml.Lexer` — the state of the reading;
* `Yaml.Lexer.step` — reading one token;
* `Yaml.tokens` — all tokens of a text, or nothing if it is malformed.
-/

namespace EnvDiscovery.Yaml

/-- The tokens of a text. -/
inductive Token where
  | versionDirective (major minor : Nat)
  | tagDirective (handle expansion : String)
  | documentStart
  | documentEnd
  | blockSequenceStart
  | blockMappingStart
  | blockEnd
  | flowSequenceStart
  | flowSequenceEnd
  | flowMappingStart
  | flowMappingEnd
  | blockEntry
  | flowEntry
  | key
  | value
  | reference (name : String)
  | anchor (name : String)
  | tag (handle suffix : String)
  | scalar (text : String) (style : ScalarStyle)
deriving DecidableEq, Repr

/-- A token, or a place that may be filled later. -/
inductive Lexeme where
  | token (t : Token)
  | place (number : Nat)

/-- A word that may be a key: its place, where it stands, and whether it has to be a key. -/
structure PossibleKey where
  place : Nat
  line : Nat
  column : Nat
  index : Nat
  required : Bool

/-- The state of the reading. Every open bracket, and the text around them, has a word that may be a
key. `filled` lists the places that became keys and whether a mapping begins there. -/
structure Lexer where
  cursor : Cursor
  indent : Int
  indents : List Int
  keyAllowed : Bool
  keys : List (Option PossibleKey)
  places : Nat
  filled : List (Nat × Bool)
  output : List Lexeme

/-- A step of the reading; it fails on malformed text. -/
abbrev LexM := StateT Lexer Option

namespace Lexer

/-- The beginning of a text. -/
def start (cs : List Char) : Lexer := ⟨.start cs, -1, [], true, [none], 0, [], []⟩

/-- Whether a bracket is open. -/
def inFlow (l : Lexer) : Bool := l.keys.length > 1

/-- Adds a token. The output is kept with the last token first. -/
def emit (t : Token) : LexM Unit :=
  modify fun l => { l with output := .token t :: l.output }

/-- Goes on by some characters. -/
def advance (n : Nat) : LexM Unit :=
  modify fun l => { l with cursor := l.cursor.skipBy n }

/-- Sets whether a key may follow. -/
def allowKey (b : Bool) : LexM Unit :=
  modify fun l => { l with keyAllowed := b }

/-- The furthest distance between a key and its colon. -/
def keyReach : Nat := 1024

/-- Whether a word can no longer be a key: its line has ended or the colon is too far away. -/
def isStale (c : Cursor) (k : PossibleKey) : Bool :=
  k.line < c.line || k.index + keyReach < c.index

/-- Gives up the words that can no longer be keys; a word that has to be one may not be given up. -/
def dropStale : LexM Unit := do
  let l ← get
  let stale (k : Option PossibleKey) : Bool := k.any (isStale l.cursor)
  if l.keys.any fun k => stale k && k.any (·.required) then failure
  set { l with keys := l.keys.map fun k => if stale k then none else k }

/-- Gives up the innermost word that may be a key, unless it has to be one. -/
def dropKey : LexM Unit := do
  let l ← get
  match l.keys with
  | [] => return
  | k :: rest =>
    if k.any (·.required) then failure
    set { l with keys := none :: rest }

/-- Keeps a place for the word that begins here, if a key may stand here. -/
def saveKey : LexM Unit := do
  if (← get).keyAllowed then
    dropKey
    modify fun l =>
      let c := l.cursor
      let k : PossibleKey :=
        ⟨l.places, c.line, c.column, c.index, !l.inFlow && l.indent == (c.column : Int)⟩
      { l with
        keys := some k :: l.keys.tail
        places := l.places + 1
        output := .place l.places :: l.output }

/-- Opens a block at a column if it is deeper than the one around it; tells whether it was. -/
def indentTo (column : Nat) : LexM Bool := do
  let l ← get
  if !l.inFlow && l.indent < (column : Int) then
    set { l with indent := column, indents := l.indent :: l.indents }
    return true
  return false

/-- Closes the blocks that are deeper than a column. -/
def unwind (column : Int) : List Int → Int → List Lexeme → Int × List Int × List Lexeme
  | [], indent, out => (indent, [], out)
  | outer :: rest, indent, out =>
    if indent > column then unwind column rest outer (.token .blockEnd :: out)
    else (indent, outer :: rest, out)

/-- Closes the blocks that are deeper than a column, outside brackets. -/
def unindentTo (column : Int) : LexM Unit :=
  modify fun l =>
    if l.inFlow then l
    else
      let (indent, indents, output) := unwind column l.indents l.indent l.output
      { l with indent := indent, indents := indents, output := output }

/-- Passes spaces, comments and line breaks. A tab is passed only where no key may begin; a line
break outside brackets allows one. -/
def passGaps (inFlow : Bool) : Nat → Cursor → Bool → Cursor × Bool
  | 0, c, allowed => (c, allowed)
  | fuel + 1, c, allowed =>
    let c := if c.column == 0 && c.has isByteOrderMark 0 then c.skip else c
    let c := c.skipWhile fun x => x == ' ' || ((inFlow || !allowed) && x == '\t')
    let c := c.skipComment
    if c.breakAt 0 then passGaps inFlow fuel c.skipBreak (allowed || !inFlow) else (c, allowed)

/-- Passes what separates tokens. -/
def toNextToken : LexM Unit :=
  modify fun l =>
    let (c, allowed) := passGaps l.inFlow (l.cursor.rest.length + 1) l.cursor l.keyAllowed
    { l with cursor := c, keyAllowed := allowed }

/-! ### Directives, names and tags -/

/-- A number of a version: at most nine digits. -/
def scanVersionPart (c : Cursor) : Option (Nat × Cursor) :=
  let (digits, c) := c.readWhile Char.isDigit
  if digits.isEmpty || digits.length > 9 then none else some (Text.valueOfDigits digits, c)

/-- Whether a character may stand in the text of a tag. -/
def isTagChar (verbatim : Bool) (x : Char) : Bool :=
  isWordChar x || ";/?:@&=+$.%!~*'()".toList.contains x ||
    (verbatim && (x == ',' || x == '[' || x == ']'))

/-- The number of bytes of a character that begins with a byte. -/
def utf8Width (b : Nat) : Nat :=
  if b < 0x80 then 1
  else if b / 0x20 == 0x6 then 2
  else if b / 0x10 == 0xE then 3
  else if b / 0x08 == 0x1E then 4
  else 0

/-- The bytes of a text in which percent signs stand before escaped bytes. `more` counts the bytes
that the character begun still needs. -/
def unescapeTag : List Char → Nat → Option (List UInt8)
  | '%' :: a :: b :: rest, more => do
    let byte := (← Text.hexValue? a) * 16 + (← Text.hexValue? b)
    let left ← if more == 0 then (if utf8Width byte == 0 then none else some (utf8Width byte - 1))
      else if byte / 0x40 == 2 then some (more - 1) else none
    return UInt8.ofNat byte :: (← unescapeTag rest left)
  | c :: rest, more =>
    if c == '%' || more != 0 then none
    else do return Text.bytes (String.singleton c) ++ (← unescapeTag rest 0)
  | [], more => if more == 0 then some [] else none

/-- The text of a tag, which may not be empty unless something stands before it. -/
def scanTagText (verbatim mayBeEmpty : Bool) (c : Cursor) : Option (String × Cursor) := do
  let (text, c) := c.readWhile (isTagChar verbatim)
  if text.isEmpty && !mayBeEmpty then none
  some (Text.decodeLossy (← unescapeTag text 0), c)

/-- The handle of a tag: an exclamation mark, word characters, and a second mark if there is one. -/
def scanHandle (c : Cursor) : Option (List Char × Cursor) :=
  if !c.isAt '!' then none
  else
    let (word, c) := c.skip.readWhile isWordChar
    if c.isAt '!' then some ('!' :: word ++ ['!'], c.skip) else some ('!' :: word, c)

/-- A directive that says how tags are expanded. -/
def scanTagDirective (c : Cursor) : Option (Token × Cursor) := do
  let (handle, c) ← scanHandle (c.skipWhile isSpace)
  if handle != ['!'] && (handle.length < 2 || handle.getLast? != some '!') then none
  if !c.spaceAt 0 then none
  let (expansion, c) ← scanTagText true false (c.skipWhile isSpace)
  if !c.gapAt 0 then none
  some (.tagDirective (String.ofList handle) expansion, c)

/-- A directive that names the version. -/
def scanVersionDirective (c : Cursor) : Option (Token × Cursor) := do
  let (major, c) ← scanVersionPart (c.skipWhile isSpace)
  if !c.isAt '.' then none
  let (minor, c) ← scanVersionPart c.skip
  some (.versionDirective major minor, c)

/-- A directive with the rest of its line. -/
def scanDirective (c : Cursor) : Option (Token × Cursor) := do
  let (name, c) := c.skip.readWhile isWordChar
  if name.isEmpty || !c.gapAt 0 then none
  let (token, c) ← match String.ofList name with
    | "YAML" => scanVersionDirective c
    | "TAG" => scanTagDirective c
    | _ => none
  let c := (c.skipWhile isSpace).skipComment
  if !c.lineEnds then none
  some (token, c.skipBreak)

/-- The name of an anchor or of a reference to one. -/
def scanName (c : Cursor) : Option (String × Cursor) :=
  let (name, c) := c.skip.readWhile isWordChar
  let ends := c.gapAt 0 || c.has (fun x => "?:,]%@".toList.contains x || x.toNat == 0x7D ||
    x.toNat == 0x60) 0
  if name.isEmpty || !ends then none else some (String.ofList name, c)

/-- The handle and the rest of a tag. -/
def scanTagParts (c : Cursor) : Option (String × String × Cursor) := do
  if c.has (· == '<') 1 then
    let (suffix, c) ← scanTagText true false (c.skipBy 2)
    if !c.isAt '>' then none
    some ("", suffix, c.skip)
  else
    let (handle, c) ← scanHandle c
    if handle.length > 1 && handle.getLast? == some '!' then
      let (suffix, c) ← scanTagText false false c
      some (String.ofList handle, suffix, c)
    else
      let (suffix, c) ← scanTagText false true c
      let suffix := String.ofList handle.tail ++ suffix
      some (if suffix.isEmpty then ("", "!", c) else ("!", suffix, c))

/-- A tag and what ends it. -/
def scanTag (inFlow : Bool) (c : Cursor) : Option (Token × Cursor) := do
  let (handle, suffix, c) ← scanTagParts c
  if (!inFlow || !c.isAt ',') && !c.gapAt 0 then none
  some (.tag handle suffix, c)

/-! ### Reading one token -/

/-- Takes over a token and the place after it. -/
def take (r : Option (Token × Cursor)) : LexM Unit := do
  match r with
  | none => failure
  | some (t, c) =>
    modify fun l => { l with cursor := c }
    emit t

/-- What begins outside all blocks. -/
def outermost : LexM Unit := do
  unindentTo (-1)
  dropKey
  allowKey false

/-- An opening bracket. -/
def openFlow (t : Token) : LexM Unit := do
  saveKey
  modify fun l => { l with keys := none :: l.keys }
  allowKey true
  advance 1
  emit t

/-- A closing bracket. -/
def closeFlow (t : Token) : LexM Unit := do
  dropKey
  modify fun l => { l with keys := if l.inFlow then l.keys.tail else l.keys }
  allowKey false
  advance 1
  emit t

/-- Opens a block here for a token that needs one. -/
def openBlock (t : Token) : LexM Unit := do
  let l ← get
  if !l.inFlow then
    if !l.keyAllowed then failure
    if ← indentTo l.cursor.column then emit t

/-- A dash before an entry. -/
def entry : LexM Unit := do
  openBlock .blockSequenceStart
  dropKey
  allowKey true
  advance 1
  emit .blockEntry

/-- A question mark before a key. -/
def explicitKey : LexM Unit := do
  openBlock .blockMappingStart
  dropKey
  allowKey !(← get).inFlow
  advance 1
  emit .key

/-- A colon before a value. It fills the place of the word that may be its key. -/
def valueMark : LexM Unit := do
  match (← get).keys.head?.join with
  | some k =>
    let opens ← indentTo k.column
    modify fun l => { l with filled := (k.place, opens) :: l.filled, keys := none :: l.keys.tail }
    allowKey false
  | none =>
    openBlock .blockMappingStart
    allowKey !(← get).inFlow
  advance 1
  emit .value

/-- A word: an anchor, a reference, a tag or a quoted scalar. -/
def word (scan : Cursor → Option (Token × Cursor)) : LexM Unit := do
  saveKey
  allowKey false
  take (scan (← get).cursor)

/-- A scalar as a token. -/
def scalarOf (style : ScalarStyle) (r : Option (List Char × Cursor)) : Option (Token × Cursor) :=
  r.map fun (text, c) => (.scalar (String.ofList text) style, c)

/-- A block of lines. -/
def block (literal : Bool) : LexM Unit := do
  dropKey
  allowKey true
  let l ← get
  take (scalarOf (if literal then .literal else .folded) (scanBlock literal l.indent l.cursor))

/-- A plain scalar. A line break after it allows a key again. -/
def plain : LexM Unit := do
  saveKey
  allowKey false
  let l ← get
  match scanPlain l.inFlow l.indent l.cursor with
  | none => failure
  | some (text, c, broken) =>
    take (some (.scalar (String.ofList text) .plain, c))
    if broken then allowKey true

/-- Whether a plain scalar may begin here. -/
def plainBegins (inFlow : Bool) (c : Cursor) : Bool :=
  let indicators := "-?:,[]#&*!|>'\"%@".toList ++ [Char.ofNat 0x7B, Char.ofNat 0x7D,
    Char.ofNat 0x60]
  !(c.gapAt 0 || c.has indicators.contains 0) || (c.isAt '-' && !c.spaceAt 1) ||
    (!inFlow && (c.isAt '?' || c.isAt ':') && !c.gapAt 1)

/-- Reads the token that begins with a character. -/
def readToken (x : Char) : LexM Unit := do
  let l ← get
  let c := l.cursor
  if c.column == 0 && x == '%' then outermost; take (scanDirective c)
  else if c.atDocumentMark then
    outermost
    advance 3
    emit (if x == '-' then .documentStart else .documentEnd)
  else if x == '[' then openFlow .flowSequenceStart
  else if x.toNat == 0x7B then openFlow .flowMappingStart
  else if x == ']' then closeFlow .flowSequenceEnd
  else if x.toNat == 0x7D then closeFlow .flowMappingEnd
  else if x == ',' then dropKey; allowKey true; advance 1; emit .flowEntry
  else if x == '-' && c.gapAt 1 then entry
  else if x == '?' && (l.inFlow || c.gapAt 1) then explicitKey
  else if x == ':' && (l.inFlow || c.gapAt 1) then valueMark
  else if x == '*' then word fun c => (scanName c).map fun (n, c) => (.reference n, c)
  else if x == '&' then word fun c => (scanName c).map fun (n, c) => (.anchor n, c)
  else if x == '!' then word (scanTag l.inFlow)
  else if x == '|' && !l.inFlow then block true
  else if x == '>' && !l.inFlow then block false
  else if x == '\'' then word fun c => scalarOf .singleQuoted (scanQuoted true c)
  else if x == '"' then word fun c => scalarOf .doubleQuoted (scanQuoted false c)
  else if plainBegins l.inFlow c then plain
  else failure

/-- Reads one token; tells whether there was one. At the end all blocks are closed. -/
def step : LexM Bool := do
  toNextToken
  dropStale
  unindentTo (← get).cursor.column
  match (← get).cursor.rest with
  | [] =>
    unindentTo (-1)
    dropKey
    return false
  | x :: _ =>
    readToken x
    return true

/-- Reads all tokens. -/
def run : Nat → LexM Unit
  | 0 => failure
  | fuel + 1 => do
    if ← step then run fuel

/-- What a place became: nothing, a key, or a key with which a mapping begins. -/
def fill (filled : List (Nat × Bool)) : Lexeme → List Token
  | .token t => [t]
  | .place n =>
    match filled.lookup n with
    | none => []
    | some true => [.blockMappingStart, .key]
    | some false => [.key]

end Lexer

/-- The tokens of a text without its opening mark; nothing if it is malformed. -/
def tokens (text : String) : Option (List Token) :=
  let cs := match text.toList with
    | c :: cs => if isByteOrderMark c then cs else c :: cs
    | [] => []
  if !cs.all isAllowed then none
  else
    ((Lexer.run (cs.length + 1)).run (.start cs)).map fun (_, l) =>
      l.output.reverse.flatMap (Lexer.fill l.filled)

end EnvDiscovery.Yaml
