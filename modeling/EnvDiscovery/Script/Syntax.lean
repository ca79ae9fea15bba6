import EnvDiscovery.Text.Digit

/-!
**Shell scripts.**

Programs of a machine are often short shell scripts. This is the part of the language that such
scripts use: words with quotes, parameters and commands, redirections, lists, pipelines, groups,
conditions and loops.

Main definitions:
* `Script.Part`, `Script.Word` — words;
* `Script.Code` — commands;
* `Script.lex`, `Script.parse` — reading a script.
-/

namespace EnvDiscovery.Script

/-- A piece of a word: plain text, a parameter to be replaced by its value, or a script to be
replaced by what it writes. -/
inductive Part where
  | text (s : List Char) (quoted : Bool)
  | param (name : String) (quoted : Bool)
  | command (script : List Char) (quoted : Bool)
deriving DecidableEq, Repr

/-- Whether a piece of a word is a script. -/
def Part.isCommand : Part → Bool
  | .command _ _ => true
  | _ => false

/-- A word in pieces. -/
abbrev Word := List Part

/-- Where a redirected stream leads. -/
inductive Destination where
  | file (name : Word)
  | stream (number : Nat)
deriving DecidableEq, Repr

/-- A redirection of a stream. -/
structure Redirection where
  stream : Nat
  destination : Destination
deriving DecidableEq, Repr

/-- A command. -/
inductive Code where
  | nothing
  | simple (line : Nat) (words : List Word) (redirections : List Redirection)
  | pipe (left right : Code)
  | negate (c : Code)
  | both (left right : Code)
  | either (left right : Code)
  | sequence (left right : Code)
  | group (body : Code) (separate : Bool) (redirections : List Redirection)
  | branch (test yes no : Code)
  | loop (whileTrue : Bool) (test body : Code)
  | each (name : String) (words : List Word) (body : Code)

/-- What a script is made of: words with their lines, operators, and numbers in front of
redirections. -/
inductive Lexeme where
  | word (line : Nat) (w : Word)
  | operator (s : String)
  | streamNumber (n : Nat)
deriving DecidableEq, Repr

/-! ### Words -/

/-- Whether a character ends an unquoted word. -/
def endsWord (c : Char) : Bool :=
  " \t\n;&|<>()".toList.contains c

/-- Whether a character may stand in a name. -/
def isNameChar (c : Char) : Bool :=
  c.isAlphanum || c == '_'

/-- Whether a character alone is the name of a parameter. -/
def isSpecialParam (c : Char) : Bool :=
  c.isDigit || "$?#@*!-".toList.contains c

/-- The parameter after a dollar sign and the text after it; nothing if the dollar sign is plain. -/
def lexParam : List Char → Option (String × List Char)
  | [] => none
  | c :: rest =>
    if c.toNat == 0x7B then
      let name := rest.takeWhile (·.toNat != 0x7D)
      match rest.dropWhile (·.toNat != 0x7D) with
      | [] => none
      | _ :: rest => some (String.ofList name, rest)
    else if isSpecialParam c then some (String.singleton c, rest)
    else if isNameChar c then
      some (String.ofList (c :: rest.takeWhile isNameChar), rest.dropWhile isNameChar)
    else none

/-- The script up to the parenthesis that closes it, and the text after it. `depth` counts the pairs
that are open in the script, and parentheses in quotes are not counted. -/
def lexCommand : Nat → Nat → List Char → Option (List Char × List Char)
  | 0, _, _ => none
  | fuel + 1, depth, cs =>
    let after (taken : List Char) (depth : Nat) (rest : List Char) :
        Option (List Char × List Char) :=
      (lexCommand fuel depth rest).map fun (script, rest) => (taken ++ script, rest)
    match cs with
    | [] => none
    | '(' :: rest => after ['('] (depth + 1) rest
    | ')' :: rest =>
      match depth with
      | 0 => some ([], rest)
      | depth + 1 => after [')'] depth rest
    | '\\' :: c :: rest => after ['\\', c] depth rest
    | c :: rest =>
      if c == '\'' || c == '"' then
        match rest.dropWhile (· != c) with
        | [] => none
        | _ :: left => after (c :: rest.takeWhile (· != c) ++ [c]) depth left
      else after [c] depth rest

/-- The pieces between double quotes, and the text after them. -/
def lexQuoted : Nat → List Char → Option (List Part × List Char)
  | 0, _ => none
  | fuel + 1, cs =>
    match cs with
    | [] => none
    | '"' :: rest => some ([], rest)
    | '\\' :: c :: rest =>
      if c == '\n' then lexQuoted fuel rest
      else
        let text := if c == '$' || c == '"' || c == '\\' || c.toNat == 0x60 then [c] else ['\\', c]
        (lexQuoted fuel rest).map fun (ps, rest) => (.text text true :: ps, rest)
    | '$' :: '(' :: rest =>
      match lexCommand (rest.length + 1) 0 rest with
      | some (script, rest) =>
        (lexQuoted fuel rest).map fun (ps, rest) => (.command script true :: ps, rest)
      | none => none
    | '$' :: rest =>
      match lexParam rest with
      | some (name, rest) =>
        (lexQuoted fuel rest).map fun (ps, rest) => (.param name true :: ps, rest)
      | none => (lexQuoted fuel rest).map fun (ps, rest) => (.text ['$'] true :: ps, rest)
    | c :: rest => (lexQuoted fuel rest).map fun (ps, rest) => (.text [c] true :: ps, rest)

/-- The pieces of a word, and the text after it. -/
def lexWord : Nat → List Char → Option (Word × List Char)
  | 0, _ => none
  | fuel + 1, cs =>
    match cs with
    | [] => some ([], [])
    | '\'' :: rest =>
      match rest.dropWhile (· != '\'') with
      | [] => none
      | _ :: after =>
        (lexWord fuel after).map fun (w, rest') =>
          (.text (rest.takeWhile (· != '\'')) true :: w, rest')
    | '"' :: rest =>
      match lexQuoted (rest.length + 1) rest with
      | none => none
      | some (ps, after) =>
        (lexWord fuel after).map fun (w, rest) => (.text [] true :: ps ++ w, rest)
    | '\\' :: '\n' :: rest => lexWord fuel rest
    | '\\' :: c :: rest => (lexWord fuel rest).map fun (w, rest) => (.text [c] true :: w, rest)
    | '$' :: '(' :: rest =>
      match lexCommand (rest.length + 1) 0 rest with
      | some (script, rest) =>
        (lexWord fuel rest).map fun (w, rest) => (.command script false :: w, rest)
      | none => none
    | '$' :: rest =>
      match lexParam rest with
      | some (name, rest) => (lexWord fuel rest).map fun (w, rest) => (.param name false :: w, rest)
      | none => (lexWord fuel rest).map fun (w, rest) => (.text ['$'] false :: w, rest)
    | c :: rest =>
      if endsWord c then some ([], cs)
      else (lexWord fuel rest).map fun (w, rest) => (.text [c] false :: w, rest)

/-- The characters of a word that has no quotes, parameters and commands. -/
def plainChars? : Word → Option (List Char)
  | [] => some []
  | .text s false :: rest => (plainChars? rest).map (s ++ ·)
  | _ :: _ => none

/-- The text of a word that has no quotes, parameters and commands. -/
def plainText? (w : Word) : Option String :=
  (plainChars? w).map String.ofList

/-! ### Lexemes -/

/-- The operators, longer ones first. -/
def operators : List String :=
  ["&&", "||", ";;", ">>", ">&", "<&", ";", "&", "|", "<", ">", "(", ")", "\n"]

/-- The operator that a text begins with. -/
def operator? (cs : List Char) : Option String :=
  operators.find? fun o => o.toList.isPrefixOf cs

/-- The lexemes of a script from a line on. -/
def lex : Nat → Nat → List Char → Option (List Lexeme)
  | 0, _, _ => none
  | fuel + 1, line, cs =>
    match cs with
    | [] => some []
    | ' ' :: rest | '\t' :: rest => lex fuel line rest
    | '\\' :: '\n' :: rest => lex fuel (line + 1) rest
    | '#' :: rest => lex fuel line (rest.dropWhile (· != '\n'))
    | _ =>
      match operator? cs with
      | some o =>
        (lex fuel (if o == "\n" then line + 1 else line) (cs.drop o.length)).map (.operator o :: ·)
      | none =>
        match lexWord (cs.length + 1) cs with
        | none => none
        | some (w, rest) =>
          let lines := ((cs.take (cs.length - rest.length)).filter (· == '\n')).length
          let lexeme := match plainText? w, rest.head? with
            | some s, some c =>
              match Text.natOfAscii? s.toList with
              | some n => if c == '<' || c == '>' then Lexeme.streamNumber n else .word line w
              | none => .word line w
            | _, _ => .word line w
          (lex fuel (line + lines) rest).map (lexeme :: ·)

/-! ### Commands -/

/-- Passes line breaks and, where a list goes on, semicolons. -/
def passBreaks (semicolons : Bool) : List Lexeme → List Lexeme
  | .operator o :: rest =>
    if o == "\n" || (semicolons && o == ";") then
      passBreaks semicolons rest
    else .operator o :: rest
  | ts => ts

/-- The reserved word that stands first, if one does. -/
def reserved? : List Lexeme → Option String
  | .word _ w :: _ => plainText? w
  | _ => none

/-- The words that end a list. -/
def closers : List String :=
  ["then", "else", "elif", "fi", "do", "done", String.singleton (Char.ofNat 0x7D)]

/-- Whether a list ends here. -/
def endsList : List Lexeme → Bool
  | [] => true
  | .operator ")" :: _ => true
  | ts => (reserved? ts).any closers.contains

/-- Reads a reserved word. -/
def expect (word : String) (ts : List Lexeme) : Option (List Lexeme) :=
  if reserved? ts == some word then some ts.tail else none

/-- A redirection of a stream, if the lexemes begin with one; outputs are the first stream unless a
number says otherwise. -/
def redirection (number : Option Nat) : List Lexeme → Option (Redirection × List Lexeme)
  | .operator o :: .word _ w :: rest =>
    if o == ">" || o == ">>" then some (⟨number.getD 1, .file w⟩, rest)
    else if o == "<" then some (⟨number.getD 0, .file w⟩, rest)
    else if o == ">&" || o == "<&" then
      match (plainText? w).bind fun s => Text.natOfAscii? s.toList with
      | some n => some (⟨number.getD (if o == ">&" then 1 else 0), .stream n⟩, rest)
      | none => none
    else none
  | _ => none

/-- The redirection that lexemes begin with. -/
def redirection? : List Lexeme → Option (Redirection × List Lexeme)
  | .streamNumber n :: rest => redirection (some n) rest
  | ts => redirection none ts

/-- The redirections after a group. -/
def redirections : Nat → List Lexeme → List Redirection × List Lexeme
  | 0, ts => ([], ts)
  | fuel + 1, ts =>
    match redirection? ts with
    | none => ([], ts)
    | some (r, rest) =>
      let (more, rest) := redirections fuel rest
      (r :: more, rest)

/-- The words and redirections of a simple command. -/
def simpleParts : Nat → List Lexeme → List Word × List Redirection × List Lexeme
  | 0, ts => ([], [], ts)
  | fuel + 1, ts =>
    match redirection? ts with
    | some (r, rest) =>
      let (words, rs, rest) := simpleParts fuel rest
      (words, r :: rs, rest)
    | none =>
      match ts with
      | .word _ w :: rest =>
        let (words, rs, rest) := simpleParts fuel rest
        (w :: words, rs, rest)
      | _ => ([], [], ts)

/-- The words of a loop over words, up to the end of their line. -/
def loopWords : List Lexeme → List Word × List Lexeme
  | .word _ w :: rest =>
    let (words, rest) := loopWords rest
    (w :: words, rest)
  | ts => ([], ts)

mutual

/-- A list of commands up to what ends it. -/
def parseList : Nat → List Lexeme → Option (Code × List Lexeme)
  | 0, _ => none
  | fuel + 1, ts =>
    let ts := passBreaks true ts
    if endsList ts then some (.nothing, ts)
    else
      match parseChain fuel ts with
      | none => none
      | some (first, rest) =>
        match rest with
        | .operator ";" :: _ | .operator "\n" :: _ =>
          (parseList fuel rest).map fun (more, rest) => (.sequence first more, rest)
        | _ => if endsList rest then some (first, rest) else none

/-- Pipelines joined by the two conditional operators, from the left. -/
def parseChain : Nat → List Lexeme → Option (Code × List Lexeme)
  | 0, _ => none
  | fuel + 1, ts =>
    match parsePipeline fuel ts with
    | none => none
    | some (first, rest) => parseChainRest fuel first rest

/-- The rest of a chain after its beginning. -/
def parseChainRest : Nat → Code → List Lexeme → Option (Code × List Lexeme)
  | 0, _, _ => none
  | fuel + 1, first, ts =>
    match ts with
    | .operator "&&" :: rest =>
      match parsePipeline fuel (passBreaks false rest) with
      | none => none
      | some (next, rest) => parseChainRest fuel (.both first next) rest
    | .operator "||" :: rest =>
      match parsePipeline fuel (passBreaks false rest) with
      | none => none
      | some (next, rest) => parseChainRest fuel (.either first next) rest
    | _ => some (first, ts)

/-- A pipeline, perhaps negated. -/
def parsePipeline : Nat → List Lexeme → Option (Code × List Lexeme)
  | 0, _ => none
  | fuel + 1, ts =>
    if reserved? ts == some "!" then
      (parsePipeline fuel ts.tail).map fun (c, rest) => (.negate c, rest)
    else
      match parseCommand fuel ts with
      | none => none
      | some (first, .operator "|" :: rest) =>
        (parsePipeline fuel (passBreaks false rest)).map fun (next, rest) =>
          (.pipe first next, rest)
      | some (first, rest) => some (first, rest)

/-- One command. -/
def parseCommand : Nat → List Lexeme → Option (Code × List Lexeme)
  | 0, _ => none
  | fuel + 1, ts =>
    match ts with
    | .operator "(" :: rest =>
      match parseList fuel rest with
      | some (body, .operator ")" :: rest) =>
        let (rs, rest) := redirections rest.length rest
        some (.group body true rs, rest)
      | _ => none
    | .operator "<" :: _ | .operator ">" :: _ | .operator ">>" :: _ | .operator ">&" :: _
    | .streamNumber _ :: _ =>
      let (words, rs, rest) := simpleParts ts.length ts
      some (.simple 1 words rs, rest)
    | .operator _ :: _ | [] => none
    | .word line _ :: _ =>
      match (reserved? ts).getD "" with
      | "if" => parseBranch fuel ts.tail
      | "while" => parseLoop fuel true ts.tail
      | "until" => parseLoop fuel false ts.tail
      | "for" => parseEach fuel ts.tail
      | "\x7b" =>
        match parseList fuel ts.tail with
        | some (body, rest) =>
          (expect "\x7d" rest).map fun rest =>
            let (rs, rest) := redirections rest.length rest
            (.group body false rs, rest)
        | none => none
      | _ =>
        let (words, rs, rest) := simpleParts ts.length ts
        some (.simple line words rs, rest)

/-- A condition after its opening word, up to its closing one. -/
def parseBranch : Nat → List Lexeme → Option (Code × List Lexeme)
  | 0, _ => none
  | fuel + 1, ts => do
    let (test, ts) ← parseList fuel ts
    let (yes, ts) ← parseList fuel (← expect "then" ts)
    match reserved? ts with
    | some "elif" =>
      let (no, ts) ← parseBranch fuel ts.tail
      return (.branch test yes no, ts)
    | some "else" =>
      let (no, ts) ← parseList fuel ts.tail
      return (.branch test yes no, ← expect "fi" ts)
    | _ => return (.branch test yes .nothing, ← expect "fi" ts)

/-- A loop with a condition after its opening word. -/
def parseLoop : Nat → Bool → List Lexeme → Option (Code × List Lexeme)
  | 0, _, _ => none
  | fuel + 1, whileTrue, ts => do
    let (test, ts) ← parseList fuel ts
    let (body, ts) ← parseList fuel (← expect "do" ts)
    return (.loop whileTrue test body, ← expect "done" ts)

/-- A loop over words after its opening word. -/
def parseEach : Nat → List Lexeme → Option (Code × List Lexeme)
  | 0, _ => none
  | fuel + 1, ts => do
    let name ← reserved? ts
    let ts ← expect "in" ts.tail
    let (words, ts) := loopWords ts
    let (body, ts) ← parseList fuel (← expect "do" (passBreaks true ts))
    return (.each name words body, ← expect "done" ts)

end

/-- The command that a script is. -/
def parse (script : String) : Option Code :=
  match lex (script.length + 1) 1 script.toList with
  | none => none
  | some ts =>
    match parseList (8 * ts.length + 8) ts with
    | some (c, []) => some c
    | _ => none

end EnvDiscovery.Script
