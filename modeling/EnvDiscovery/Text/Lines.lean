/-!
**Lines of a text.**

A line ends at a line feed, with one carriage return before the line feed belonging to the ending.
What follows the last line feed is a line only if it is not empty.

Main definitions:
* `Text.linesOf`, `Text.lines` — the lines of a text, without their endings.
-/

namespace EnvDiscovery.Text

/-- A line whose ending line feed is already gone, without the carriage return that preceded it. -/
def dropReturn (line : List Char) : List Char :=
  if line.getLast? = some '\r' then line.dropLast else line

/-- The lines of a list of characters, without their endings. -/
def linesOf (cs : List Char) : List (List Char) :=
  let pieces := cs.splitOn '\n'
  let closed := pieces.dropLast.map dropReturn
  match pieces.getLast? with
  | none | some [] => closed
  | some rest => closed ++ [rest]

/-- The lines of a text, without their endings. -/
def lines (s : String) : List String :=
  (linesOf s.toList).map String.ofList

end EnvDiscovery.Text
