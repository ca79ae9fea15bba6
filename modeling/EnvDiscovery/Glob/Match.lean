import EnvDiscovery.Failure
import EnvDiscovery.Glob.Pattern
import EnvDiscovery.Path.Basic
import EnvDiscovery.Text.Ascii
import EnvDiscovery.Text.Utf8

/-!
**Matching paths against patterns.**

Patterns are matched against the bytes of a path. A token turns a text into the texts that may be
left after it.

Main definitions:
* `Glob.Token.rests`, `Glob.restsOf` — what may be left after a token, after a list of tokens;
* `Glob.matchesBytes` — whether a pattern matches a whole text;
* `WatchPattern` — a pattern relative to a directory, `WatchPattern.matches` and
  `WatchPattern.recursive`.
-/

namespace EnvDiscovery

namespace Glob

/-- The byte of a slash. -/
def slash : UInt8 := 0x2F

/-- The ends of a list, the list itself first. -/
def tails {α : Type} : List α → List (List α)
  | [] => [[]]
  | x :: xs => (x :: xs) :: tails xs

/-- What may be left after any bytes that satisfy `p`. -/
def afterSome (p : UInt8 → Bool) : List UInt8 → List (List UInt8)
  | [] => [[]]
  | b :: bs => (b :: bs) :: if p b then afterSome p bs else []

/-- What may be left after any bytes and a slash. -/
def afterSlash (bs : List UInt8) : List (List UInt8) :=
  (tails bs).filterMap fun
    | b :: rest => if b == slash then some rest else none
    | [] => none

/-- The UTF-8 bytes of a character. -/
def charBytes (c : Char) : List UInt8 :=
  Text.bytes c.toString

/-- The ranges of bytes of a range of characters: the last byte of its start up to the first byte of
its end, and the remaining bytes of both by themselves. -/
def byteRanges (r : Char × Char) : List (UInt8 × UInt8) :=
  let first := charBytes r.1
  let last := charBytes r.2
  if r.1 = r.2 then first.map fun b => (b, b)
  else
    first.dropLast.map (fun b => (b, b)) ++ [(first.getLastD 0, last.headD 0)] ++
      (last.drop 1).map fun b => (b, b)

/-- Whether a byte belongs to a class. -/
def inClass (negated : Bool) (ranges : List (Char × Char)) (b : UInt8) : Bool :=
  negated != (ranges.flatMap byteRanges).any fun (lo, hi) => lo ≤ b && b ≤ hi

mutual

/-- Whether a token says nothing at all: braces without a branch that says something. -/
def Token.isVoid : Token → Bool
  | .either branches => allVoid branches
  | _ => false

/-- Whether no token of a branch says anything. -/
def branchVoid : List Token → Bool
  | [] => true
  | t :: rest => t.isVoid && branchVoid rest

/-- Whether no branch says anything. -/
def allVoid : List (List Token) → Bool
  | [] => true
  | b :: rest => branchVoid b && allVoid rest

end

mutual

/-- What may be left of a text after a token. -/
def Token.rests : Token → List UInt8 → List (List UInt8)
  | .literal c, bs => (Text.afterStart? (charBytes c) bs).toList
  | .anyByte, b :: bs => if b == slash then [] else [bs]
  | .anyByte, [] => []
  | .anyName, bs => afterSome (· != slash) bs
  | .anyDirs, bs => bs :: afterSlash bs
  | .belowDir, b :: bs => if b == slash then tails bs else []
  | .belowDir, [] => []
  | .throughDirs, b :: bs => if b == slash then bs :: afterSlash bs else []
  | .throughDirs, [] => []
  | .oneOf negated ranges, b :: bs => if inClass negated ranges b then [bs] else []
  | .oneOf _ _, [] => []
  | .either branches, bs => if allVoid branches then [bs] else restsOfAny branches bs

/-- What may be left after a list of tokens. -/
def restsOf : List Token → List UInt8 → List (List UInt8)
  | [], bs => [bs]
  | t :: rest, bs => ((t.rests bs).flatMap (restsOf rest)).eraseDups

/-- What may be left after one of the branches that say something. -/
def restsOfAny : List (List Token) → List UInt8 → List (List UInt8)
  | [], _ => []
  | b :: rest, bs => (if branchVoid b then [] else restsOf b bs) ++ restsOfAny rest bs

end

/-- Whether a pattern matches a whole text. Two stars alone match everything. -/
def matchesBytes : List Token → List UInt8 → Bool
  | [.anyDirs], _ => true
  | ts, bs => (restsOf ts bs).any List.isEmpty

end Glob

/-- A pattern that applies below a directory. -/
structure WatchPattern where
  base : Path
  tokens : List Glob.Token
  recursive : Bool

namespace WatchPattern

/-- The pattern with the given text below a directory. It reaches below the entries of the directory
if the text has a slash or two stars. -/
def new (base : Path) (pattern : String) : Except Failure WatchPattern :=
  match Glob.parse pattern with
  | .error p => .error (.watch (.invalidPattern pattern p.message))
  | .ok tokens =>
    .ok ⟨base, tokens, pattern.toList.contains '/' || Text.occursIn ['*', '*'] pattern.toList⟩

/-- The pattern of a watch on a directory, which has to exist. -/
def ofDirectory (isDir : Bool) (dir : Path) (pattern : String) : Except Failure WatchPattern :=
  if isDir then new dir pattern else .error (.watch (.watchFailed dir "directory does not exist"))

/-- Whether a path lies below the directory and matches. -/
def matchesPath (w : WatchPattern) (p : Path) : Bool :=
  match p.relativeTo? w.base with
  | none => false
  | some rel => Glob.matchesBytes w.tokens (Text.bytes rel.text)

end WatchPattern

end EnvDiscovery
