/-!
**Glob patterns.**

A pattern is a list of tokens. Two stars that make up a whole component cross slashes, all other
stars and question marks do not.

Main definitions:
* `Glob.Token` — the parts of a pattern;
* `Glob.Problem` — why a text is no pattern;
* `Glob.parse` — reading a pattern.
-/

namespace EnvDiscovery.Glob

/-- A part of a pattern. `anyDirs` are the two stars at the start, `belowDir` those at the end and
`throughDirs` those in the middle, each together with the slashes around them. -/
inductive Token where
  | literal (c : Char)
  | anyByte
  | anyName
  | anyDirs
  | belowDir
  | throughDirs
  | oneOf (negated : Bool) (ranges : List (Char × Char))
  | either (branches : List (List Token))

/-- Why a text is no pattern. -/
inductive Problem where
  | unclosedClass
  | invalidRange (first last : Char)
  | unopenedBraces
  | unclosedBraces
  | danglingEscape
deriving DecidableEq, Repr

/-- The text of a problem. -/
def Problem.message : Problem → String
  | unclosedClass => "unclosed character class; missing ']'"
  | invalidRange a b => "invalid range; '" ++ a.toString ++ "' > '" ++ b.toString ++ "'"
  | unopenedBraces =>
    "unopened alternate group; missing '\x7b' (maybe escape '\x7d' with '[\x7d]'?)"
  | unclosedBraces =>
    "unclosed alternate group; missing '\x7d' (maybe escape '\x7b' with '[\x7b]'?)"
  | danglingEscape => "dangling '\\'"

/-! ### Classes -/

/-- A class while it is read: its ranges, the last one first, and whether a dash is waiting for the
end of a range. -/
structure ClassState where
  ranges : List (Char × Char)
  pending : Bool

/-- Ends the last range at a character. -/
def endRange (last : Char) : List (Char × Char) → Except Problem (List (Char × Char))
  | (first, _) :: rest =>
    if last < first then .error (.invalidRange first last) else .ok ((first, last) :: rest)
  | [] => .ok [(last, last)]

/-- One more character of a class. -/
def ClassState.add (s : ClassState) (c : Char) : Except Problem ClassState :=
  if s.pending then (endRange c s.ranges).map (⟨·, false⟩)
  else if c == '-' && !s.ranges.isEmpty then .ok { s with pending := true }
  else .ok { s with ranges := (c, c) :: s.ranges }

/-- The ranges of a finished class; a dash that waits stands for itself. -/
def ClassState.finish (s : ClassState) : List (Char × Char) :=
  (if s.pending then ('-', '-') :: s.ranges else s.ranges).reverse

/-- The ranges of a class up to its closing bracket, and what follows. A bracket that comes first
stands for itself. -/
def readRanges (s : ClassState) : List Char → Except Problem (List (Char × Char) × List Char)
  | [] => .error .unclosedClass
  | c :: cs =>
    if c == ']' && !s.ranges.isEmpty then .ok (s.finish, cs)
    else
      match s.add c with
      | .error p => .error p
      | .ok s => readRanges s cs

/-- A class after its opening bracket. -/
def readClass : List Char → Except Problem (Token × List Char)
  | '!' :: cs | '^' :: cs =>
    (readRanges ⟨[], false⟩ cs).map fun (rs, rest) => (.oneOf true rs, rest)
  | cs => (readRanges ⟨[], false⟩ cs).map fun (rs, rest) => (.oneOf false rs, rest)

/-! ### Tokens -/

/-- An open pair of braces: its finished branches, and the tokens of the current one, last token
first. The outermost frame is the pattern itself. -/
structure Frame where
  done : List (List Token)
  current : List Token

/-- What is read so far: the frames from the inside out, and the character before the next. -/
structure State where
  inner : Frame
  outer : List Frame
  prev : Option Char

/-- Adds tokens to the current branch. -/
def State.push (s : State) (ts : List Token) : State :=
  { s with inner := { s.inner with current := ts.reverse ++ s.inner.current } }

/-- Whether the current branch is inside braces. -/
def State.inBraces (s : State) : Bool :=
  !s.outer.isEmpty

/-- Replaces the slash before two stars by the token for them. After another such token nothing is
added. -/
def State.crossDirs (s : State) (t : Token) : State :=
  match s.inner.current with
  | .anyDirs :: _ | .belowDir :: _ => s
  | _ :: rest => { s with inner := { s.inner with current := t :: rest } }
  | [] => s.push [t]

/-- Two stars, given what follows them. The result says what still follows. -/
def State.pushStars (s : State) (cs : List Char) : State × List Char :=
  let plain := (s.push [.anyName, .anyName], cs)
  if s.inner.current.isEmpty then
    match cs with
    | [] => (s.push [.anyDirs], [])
    | '/' :: rest => (s.push [.anyDirs], rest)
    | _ => plain
  else if s.prev != some '/' && (!s.inBraces ||
    (s.prev != some ',' && s.prev != some '\x7b')) then plain
  else
    match cs with
    | [] => (s.crossDirs .belowDir, [])
    | '/' :: rest => (s.crossDirs .throughDirs, rest)
    | c :: _ =>
      if (c == ',' || c == '\x7d') && s.inBraces then (s.crossDirs .belowDir, cs) else plain

/-- Closes the innermost braces. -/
def State.close (s : State) : Except Problem State :=
  match s.outer with
  | [] => .error .unopenedBraces
  | frame :: outer =>
    let token := Token.either (s.inner.done ++ [s.inner.current.reverse])
    .ok { s with inner := { frame with current := token :: frame.current }, outer := outer }

/-- Reads the rest of a pattern. The first argument bounds the number of tokens. -/
def readTokens : Nat → State → List Char → Except Problem State
  | _, s, [] => .ok s
  | 0, s, _ => .ok s
  | fuel + 1, s, c :: cs =>
    match c with
    | '?' => readTokens fuel { s.push [.anyByte] with prev := some c } cs
    | '*' =>
      match cs with
      | '*' :: cs =>
        let (s', rest) := s.pushStars cs
        let prev := if rest.length < cs.length then '/' else '*'
        readTokens fuel { s' with prev := some prev } rest
      | _ => readTokens fuel { s.push [.anyName] with prev := some c } cs
    | '[' =>
      match readClass cs with
      | .error p => .error p
      | .ok (t, rest) => readTokens fuel { s.push [t] with prev := some ']' } rest
    | '\x7b' =>
      readTokens fuel { s with inner := ⟨[], []⟩, outer := s.inner :: s.outer, prev := some c } cs
    | '\x7d' =>
      match s.close with
      | .error p => .error p
      | .ok s => readTokens fuel { s with prev := some c } cs
    | ',' =>
      if s.inBraces then
        let inner : Frame := ⟨s.inner.done ++ [s.inner.current.reverse], []⟩
        readTokens fuel { s with inner := inner, prev := some c } cs
      else readTokens fuel { s.push [.literal c] with prev := some c } cs
    | '\\' =>
      match cs with
      | [] => .error .danglingEscape
      | e :: rest => readTokens fuel { s.push [.literal e] with prev := some e } rest
    | c => readTokens fuel { s.push [.literal c] with prev := some c } cs

/-- The tokens of a pattern. -/
def parse (pattern : String) : Except Problem (List Token) :=
  let cs := pattern.toList
  match readTokens cs.length ⟨⟨[], []⟩, [], none⟩ cs with
  | .error p => .error p
  | .ok s => if s.inBraces then .error .unclosedBraces else .ok s.inner.current.reverse

end EnvDiscovery.Glob
