import EnvDiscovery.Decimal.Double
import EnvDiscovery.Json.Value

/-!
**Writing JSON.**

Main definitions:
* `Json.quote` — a string with its quotes and escapes;
* `Json.render` — a value on one line without spaces;
* `Json.pretty` — a value with each item on a line of its own.
-/

namespace EnvDiscovery.Json

/-- The spelling of a character inside a string. -/
def quoteChar (c : Char) : List Char :=
  match c with
  | '"' => ['\\', '"']
  | '\\' => ['\\', '\\']
  | '\x08' => ['\\', 'b']
  | '\x0C' => ['\\', 'f']
  | '\n' => ['\\', 'n']
  | '\r' => ['\\', 'r']
  | '\t' => ['\\', 't']
  | c =>
    if c.toNat < 0x20 then
      ['\\', 'u', '0', '0', Text.hexDigit (c.toNat / 16), Text.hexDigit c.toNat]
    else [c]

/-- A string with its quotes and escapes. -/
def quote (s : String) : String :=
  String.ofList ('"' :: s.toList.flatMap quoteChar ++ ['"'])

/-- The text of an integer. -/
def renderInt (i : Int) : String :=
  (if i < 0 then "-" else "") ++ Text.decimal i.natAbs

mutual

/-- The text of a value on one line. -/
def render : Json → String
  | null => "null"
  | bool true => "true"
  | bool false => "false"
  | int i => renderInt i
  | float x => Decimal.render x
  | str s => quote s
  | arr items => "[" ++ ",".intercalate (renderItems items) ++ "]"
  | obj fields => "\x7b" ++ ",".intercalate (renderFields fields) ++ "\x7d"

/-- The texts of items. -/
def renderItems : List Json → List String
  | [] => []
  | v :: rest => render v :: renderItems rest

/-- The texts of fields. -/
def renderFields : List (String × Json) → List String
  | [] => []
  | (name, v) :: rest => (quote name ++ ":" ++ render v) :: renderFields rest

end

/-- Sets parts on lines of their own between two brackets. -/
def block (opening closing : String) (indent : String) (items : List String) : String :=
  if items.isEmpty then opening ++ closing
  else
    let inner := indent ++ "  "
    opening ++ "\n" ++ inner ++ (",\n" ++ inner).intercalate items ++ "\n" ++ indent ++ closing

mutual

/-- The text of a value over several lines, each after the given indentation. -/
def prettyAt (indent : String) : Json → String
  | arr items => block "[" "]" indent (prettyItems (indent ++ "  ") items)
  | obj fields => block "\x7b" "\x7d" indent (prettyFields (indent ++ "  ") fields)
  | null => "null"
  | bool true => "true"
  | bool false => "false"
  | int i => renderInt i
  | float x => Decimal.render x
  | str s => quote s

/-- The texts of items. -/
def prettyItems (indent : String) : List Json → List String
  | [] => []
  | v :: rest => prettyAt indent v :: prettyItems indent rest

/-- The texts of fields. -/
def prettyFields (indent : String) : List (String × Json) → List String
  | [] => []
  | (name, v) :: rest => (quote name ++ ": " ++ prettyAt indent v) :: prettyFields indent rest

end

/-- The text of a value over several lines. -/
def pretty (v : Json) : String :=
  prettyAt "" v

end EnvDiscovery.Json
