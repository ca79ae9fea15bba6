/-!
**ASCII letters.**

Names of kinds, sources and script folders are compared without regard to the case of the ASCII
letters; all other characters compare as they stand.

Main definitions:
* `Text.asciiLower` — a text with its ASCII letters in lower case;
* `Text.eqIgnoreCase` — equality up to that;
* `Text.afterStart?`, `Text.beforeEnd?` — a text without a given start or end.
-/

namespace EnvDiscovery.Text

/-- A text with its ASCII letters in lower case. -/
def asciiLower (s : String) : String :=
  String.ofList (s.toList.map Char.toLower)

/-- Equality up to the case of ASCII letters. -/
def eqIgnoreCase (a b : String) : Bool :=
  asciiLower a == asciiLower b

/-- What follows `start` in a list that begins with it. -/
def afterStart? {α : Type} [BEq α] : List α → List α → Option (List α)
  | [], xs => some xs
  | a :: start, x :: xs => if a == x then afterStart? start xs else none
  | _ :: _, [] => none

/-- What precedes `ending` in a list that closes with it. -/
def beforeEnd? {α : Type} [BEq α] (ending xs : List α) : Option (List α) :=
  (afterStart? ending.reverse xs.reverse).map List.reverse

/-- What follows `start` in a text that begins with it. -/
def withoutStart? (start s : String) : Option String :=
  (afterStart? start.toList s.toList).map String.ofList

/-- What precedes `ending` in a text that closes with it. -/
def withoutEnd? (ending s : String) : Option String :=
  (beforeEnd? ending.toList s.toList).map String.ofList

/-- Whether a text begins with another. -/
def startsWith (start s : String) : Bool :=
  (afterStart? start.toList s.toList).isSome

/-- Whether a text closes with another. -/
def endsWith (ending s : String) : Bool :=
  (beforeEnd? ending.toList s.toList).isSome

/-- Whether `needle` occurs somewhere in the list. -/
def occursIn {α : Type} [BEq α] (needle : List α) : List α → Bool
  | [] => needle.isEmpty
  | x :: xs => (afterStart? needle (x :: xs)).isSome || occursIn needle xs

/-- Splits at the first character that satisfies `p`; that character belongs to neither part. -/
def splitFirst? (p : Char → Bool) : List Char → Option (List Char × List Char)
  | [] => none
  | c :: cs => if p c then some ([], cs) else (splitFirst? p cs).map fun (l, r) => (c :: l, r)

/-- Replaces every occurrence of the nonempty list `old`, from the left. -/
def replaceAll {α : Type} [BEq α] (old new : List α) (xs : List α) : List α :=
  go xs 0
where
  /-- Replaces in the list, after passing over `skip` elements of an occurrence already replaced. -/
  go : List α → Nat → List α
    | [], _ => []
    | _ :: xs, skip + 1 => go xs skip
    | x :: xs, 0 =>
      if !old.isEmpty && (afterStart? old (x :: xs)).isSome then new ++ go xs (old.length - 1)
      else x :: go xs 0

end EnvDiscovery.Text
