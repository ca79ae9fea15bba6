import EnvDiscovery.Script.Syntax
import EnvDiscovery.Text.Ascii
import EnvDiscovery.Text.Blank
import EnvDiscovery.Text.Utf8

/-!
**Running shell scripts.**

A run has no other effect than what it writes, the links it makes, how long it takes and how it
ends. A loop that is repeated too often is taken to be endless. The texts of a script are those of
files: a byte that belongs to no character is kept as a stray one.

Main definitions:
* `Script.Run` — the state of a run;
* `Script.expand` — the texts that words stand for;
* `Script.utility` — what the commands do that a shell or a machine has;
* `Script.exec` — running a command;
* `Script.Outcome`, `Script.runScript` — the outcome of a script.
-/

namespace EnvDiscovery.Script

/-- How a run ends early. -/
inductive Ending where
  | exited (status : Nat)
  | killed
  | endless
deriving DecidableEq, Repr

/-- Where a stream of output goes. -/
inductive Sink where
  | output
  | errors
  | pipe
  | nowhere
deriving DecidableEq, Repr

/-- The streams of a command. -/
structure Streams where
  output : Sink
  errors : Sink
  input : List UInt8

/-- The state of a run. `name` and `args` are the positional parameters, `elapsed` counts
nanoseconds, `external` tells which commands the machine offers besides those of the shell, `files`
gives the texts of its files, and `links` are the names and targets of the links made so far. -/
structure Run where
  name : String
  args : List String
  vars : List (String × String)
  external : String → Option String
  files : String → Option String
  output : List UInt8
  errors : List UInt8
  pipe : List UInt8
  status : Nat
  elapsed : Nat
  links : List (String × String)
  ending : Option Ending

namespace Run

/-- Writes to a sink. -/
def write (r : Run) (sink : Sink) (bytes : List UInt8) : Run :=
  match sink with
  | .output => { r with output := r.output ++ bytes }
  | .errors => { r with errors := r.errors ++ bytes }
  | .pipe => { r with pipe := r.pipe ++ bytes }
  | .nowhere => r

/-- The run after a command ends with a status. -/
def finish (r : Run) (status : Nat) : Run := { r with status := status }

/-- The run after it ends early, unless it has. -/
def stop (r : Run) (e : Ending) : Run := { r with ending := r.ending <|> some e }

/-- Assigns a variable. -/
def assign (r : Run) (name value : String) : Run :=
  { r with vars := (name, value) :: r.vars.filter (·.1 != name) }

/-- Complains on the error stream. -/
def complain (r : Run) (streams : Streams) (text : String) : Run :=
  r.write streams.errors (Text.rawBytes (text ++ "\n"))

end Run

/-! ### Expansion -/

/-- The name by which a script refers to its own process. -/
def selfName : String := "$$"

/-- The value of a parameter. -/
def paramValue (r : Run) (name : String) : String :=
  match name with
  | "$" => selfName
  | "?" => Text.decimal r.status
  | "#" => Text.decimal r.args.length
  | "0" => r.name
  | "@" | "*" => " ".intercalate r.args
  | name =>
    match Text.natOfAscii? name.toList with
    | some n => (r.args[n - 1]?).getD ""
    | none => (r.vars.lookup name).getD ""

/-- Whether a character separates fields. -/
def isFieldBreak (c : Char) : Bool :=
  c == ' ' || c == '\t' || c == '\n'

/-- The fields of a word so far: the finished ones, last first, and the one begun. -/
structure Fields where
  done : List (List Char)
  begun : Option (List Char)

namespace Fields

/-- Adds text to the field begun. -/
def add (f : Fields) (s : List Char) : Fields :=
  { f with begun := some (f.begun.getD [] ++ s) }

/-- Ends the field begun. -/
def cut (f : Fields) : Fields :=
  ⟨f.begun.toList ++ f.done, none⟩

/-- Adds text that is split at blanks. -/
def addSplit (f : Fields) : List Char → Fields
  | [] => f
  | c :: rest => if isFieldBreak c then f.cut.addSplit rest else (f.add [c]).addSplit rest

/-- Adds the value of a piece, which is split at blanks unless it is quoted. -/
def addValue (f : Fields) (quoted : Bool) (value : List Char) : Fields :=
  if quoted then f.add value else f.addSplit value

/-- Adds all positional parameters, each a field of its own. -/
def addArgs (f : Fields) : List String → Fields
  | [] => f
  | a :: rest => rest.foldl (fun f a => f.cut.add a.toList) (f.add a.toList)

end Fields

/-- How a command in a word is run: what it leaves of the run, and what it writes. -/
abbrev Substitution := Run → List Char → Run × List Char

/-- Adds a piece of a word. -/
def addPart (sub : Substitution) (state : Run × Fields) (p : Part) : Run × Fields :=
  let (r, f) := state
  match p with
  | .text s _ => (r, f.add s)
  | .param "@" true => (r, f.addArgs r.args)
  | .param name quoted => (r, f.addValue quoted (paramValue r name).toList)
  | .command script quoted =>
    let (r, written) := sub r script
    (r, f.addValue quoted written)

/-- The texts that a word stands for. -/
def expandWord (sub : Substitution) (r : Run) (w : Word) : Run × List String :=
  let (r, f) := w.foldl (addPart sub) (r, ⟨[], none⟩)
  (r, f.cut.done.reverse.map String.ofList)

/-- The texts that words stand for. -/
def expand (sub : Substitution) (r : Run) : List Word → Run × List String
  | [] => (r, [])
  | w :: ws =>
    let (r, texts) := expandWord sub r w
    let (r, more) := expand sub r ws
    (r, texts ++ more)

/-- The single text that a word stands for where it is not split. -/
def expandWhole (sub : Substitution) (r : Run) (w : Word) : Run × String :=
  let (r, texts) := expandWord sub r w
  (r, " ".intercalate texts)

/-! ### Texts with escapes -/

/-- The character that a letter after a backslash stands for. -/
def escapeLetter? : Char → Option Nat
  | 'a' => some 7
  | 'b' => some 8
  | 'f' => some 12
  | 'n' => some 10
  | 'r' => some 13
  | 't' => some 9
  | 'v' => some 11
  | '\\' => some 92
  | _ => none

/-- Whether a character is an octal digit. -/
def isOctal (c : Char) : Bool := '0' ≤ c && c ≤ '7'

/-- The value of octal digits. -/
def octalValue (cs : List Char) : Nat :=
  cs.foldl (fun n c => n * 8 + (c.toNat - '0'.toNat)) 0

/-- The bytes of a text with escapes. Octal codes have at most three digits, after a zero if
`zeroFirst` says so. The second part tells whether the text ends the output. -/
def unescape (zeroFirst : Bool) : Nat → List Char → List UInt8 × Bool
  | 0, _ => ([], false)
  | fuel + 1, cs =>
    let after (bytes : List UInt8) (rest : List Char) : List UInt8 × Bool :=
      let (more, ended) := unescape zeroFirst fuel rest
      (bytes ++ more, ended)
    match cs with
    | [] => ([], false)
    | '\\' :: c :: rest =>
      match escapeLetter? c with
      | some n => after [UInt8.ofNat n] rest
      | none =>
        if zeroFirst && c == 'c' then ([], true)
        else if zeroFirst && c == '0' then
          let digits := (rest.take 3).takeWhile isOctal
          after [UInt8.ofNat (octalValue digits)] (rest.drop digits.length)
        else if !zeroFirst && isOctal c then
          let digits := ((c :: rest).take 3).takeWhile isOctal
          after [UInt8.ofNat (octalValue digits)] ((c :: rest).drop digits.length)
        else after (Text.rawBytes (String.ofList ['\\', c])) rest
    | c :: rest => after (Text.rawBytes (String.singleton c)) rest

/-- What `echo` writes. -/
def echoBytes (args : List String) : List UInt8 :=
  let (newline, args) := match args with
    | "-n" :: rest => (false, rest)
    | args => (true, args)
  let text := (" ".intercalate args).toList
  let (bytes, ended) := unescape true (text.length + 1) text
  if newline && !ended then bytes ++ [10] else bytes

/-- A text padded to a width, on the right if `left` says so. -/
def padded (left zeros : Bool) (width : Nat) (bytes : List UInt8) : List UInt8 :=
  let fill := List.replicate (width - bytes.length) (if zeros && !left then 48 else 32)
  if left then bytes ++ fill else fill ++ bytes

/-- The integer that a text writes, or zero. -/
def intOf (s : String) : Int :=
  match s.toList with
  | '-' :: cs => -(((Text.natOfAscii? cs).getD 0 : Nat) : Int)
  | '+' :: cs => ((Text.natOfAscii? cs).getD 0 : Nat)
  | cs => ((Text.natOfAscii? cs).getD 0 : Nat)

/-- An integer as a text. -/
def intText (i : Int) : String :=
  if i < 0 then "-" ++ Text.decimal i.natAbs else Text.decimal i.toNat

/-- What a conversion makes of an argument. -/
def convert (kind : Char) (arg : Option String) : Option (List UInt8) :=
  let s := arg.getD ""
  match kind with
  | 's' => some (Text.rawBytes s)
  | 'c' => some ((Text.rawBytes s).take 1)
  | 'b' => some (unescape true (s.length + 1) s.toList).1
  | 'd' | 'i' | 'u' => some (Text.rawBytes (intText (intOf s)))
  | 'x' => some (Text.rawBytes (String.ofList (Nat.toDigits 16 (intOf s).toNat)))
  | 'o' => some (Text.rawBytes (String.ofList (Nat.toDigits 8 (intOf s).toNat)))
  | _ => none

/-- One pass of a format over arguments: what is written and the arguments left. -/
def formatOnce : Nat → List Char → List String → List UInt8 × List String
  | 0, _, args => ([], args)
  | fuel + 1, cs, args =>
    let after (bytes : List UInt8) (rest : List Char) (args : List String) :
        List UInt8 × List String :=
      let (more, args) := formatOnce fuel rest args
      (bytes ++ more, args)
    match cs with
    | [] => ([], args)
    | '%' :: '%' :: rest => after [37] rest args
    | '%' :: rest =>
      let flags := rest.takeWhile fun c => c == '-' || c == '0'
      let rest := rest.dropWhile fun c => c == '-' || c == '0'
      let width := Text.valueOfDigits (rest.takeWhile Char.isDigit)
      let rest := rest.dropWhile Char.isDigit
      let precision := match rest with
        | '.' :: more => some (Text.valueOfDigits (more.takeWhile Char.isDigit))
        | _ => none
      let rest := match rest with
        | '.' :: more => more.dropWhile Char.isDigit
        | rest => rest
      match rest with
      | [] => ([], args)
      | kind :: rest =>
        match convert kind args.head? with
        | none => ([], args)
        | some bytes =>
          let bytes := if kind == 's' then bytes.take (precision.getD bytes.length) else bytes
          after (padded (flags.contains '-') (flags.contains '0') width bytes) rest args.tail
    | '\\' :: c :: rest =>
      let digits := ((c :: rest).take 3).takeWhile isOctal
      if isOctal c then
        after [UInt8.ofNat (octalValue digits)] ((c :: rest).drop digits.length) args
      else after (unescape false 3 ['\\', c]).1 rest args
    | c :: rest => after (Text.rawBytes (String.singleton c)) rest args

/-- What `printf` writes: the format is used again as long as it takes arguments and some are
left. -/
def printfBytes (format : String) : Nat → List String → List UInt8
  | 0, _ => []
  | fuel + 1, args =>
    let (bytes, left) := formatOnce (format.length + 1) format.toList args
    if left.isEmpty || left.length == args.length then bytes
    else bytes ++ printfBytes format fuel left

/-! ### Utilities -/

/-- The nanoseconds that a text such as `5` or `0.25` asks to sleep. -/
def sleepNanos? (s : String) : Option Nat :=
  let body := s.toList
  let whole := body.takeWhile Char.isDigit
  let (fraction, unit) := match body.dropWhile Char.isDigit with
    | '.' :: rest => (rest.takeWhile Char.isDigit, rest.dropWhile Char.isDigit)
    | rest => ([], rest)
  let factor := match unit with
    | [] | ['s'] => some 1
    | ['m'] => some 60
    | ['h'] => some 3600
    | ['d'] => some 86400
    | _ => none
  if whole.isEmpty && fraction.isEmpty then none
  else
    factor.map fun k =>
      (Text.valueOfDigits whole * 1000000000 +
        Text.valueOfDigits ((fraction ++ List.replicate 9 '0').take 9)) * k

/-- What `test` says of its arguments. -/
def testHolds : List String → Bool
  | [] => false
  | [s] => !s.isEmpty
  | ["!", s] => s.isEmpty
  | ["-n", s] => !s.isEmpty
  | ["-z", s] => s.isEmpty
  | [a, "=", b] => a == b
  | [a, "!=", b] => a != b
  | [a, "-eq", b] => intOf a == intOf b
  | [a, "-ne", b] => intOf a != intOf b
  | [a, "-lt", b] => intOf a < intOf b
  | [a, "-le", b] => intOf a ≤ intOf b
  | [a, "-gt", b] => intOf b < intOf a
  | [a, "-ge", b] => intOf b ≤ intOf a
  | ["!", a, "=", b] => a != b
  | _ => false

/-- Whether `kill` is asked to do more than look. -/
def killEnds : List String → Bool
  | "-0" :: _ => false
  | "-s" :: "0" :: _ => false
  | args => args.contains selfName

/-- The status of a condition. -/
def statusOf (b : Bool) : Nat := if b then 0 else 1

/-- The complaint of a command that got no operand. -/
def missingOperand (streams : Streams) (r : Run) (name : String) : Run :=
  (r.complain streams
    (name ++ ": missing operand\nTry '" ++ name ++ " --help' for more information.")).finish 1

/-- Sleeps for the sum of the times given. -/
def sleep (streams : Streams) (r : Run) (args : List String) : Run :=
  if args.isEmpty then missingOperand streams r "sleep"
  else if args.contains "infinity" then r.stop .endless
  else
    match args.mapM sleepNanos? with
    | some times => { r with elapsed := r.elapsed + times.foldl (· + ·) 0, status := 0 }
    | none => r.finish 1

/-- Writes a file, or complains that there is none. -/
def catFile (streams : Streams) (r : Run) (name : String) : Run :=
  if name == "-" then r.write streams.output streams.input
  else if name == "/dev/null" then r
  else
    match r.files name with
    | some text => r.write streams.output (Text.rawBytes text)
    | none => (r.complain streams ("cat: " ++ name ++ ": No such file or directory")).finish 1

/-- Whether an argument of the `echo` outside the shell is an option. -/
def isEchoOption (arg : String) : Bool :=
  match arg.toList with
  | '-' :: c :: cs => (c :: cs).all fun c => c == 'n' || c == 'e' || c == 'E'
  | _ => false

/-- What the `echo` outside the shell writes: escapes are read only if an option asks for it, and
the last option on it counts. -/
def plainEchoBytes (args : List String) : List UInt8 :=
  let options := ((args.takeWhile isEchoOption).map String.toList).flatten
  let text := (" ".intercalate (args.dropWhile isEchoOption)).toList
  let (bytes, ended) :=
    if (options.filter fun c => c == 'e' || c == 'E').getLast? == some 'e' then
      unescape true (text.length + 1) text
    else (Text.rawBytes (String.ofList text), false)
  if options.contains 'n' || ended then bytes else bytes ++ [10]

/-- Runs a command that is not part of the shell. Of `ln`, only the form that makes one link is
known. -/
def externalUtility (streams : Streams) (r : Run) (name : String) (args : List String) : Run :=
  match name, args with
  | "sleep", args => sleep streams r args
  | "cat", [] => (r.write streams.output streams.input).finish 0
  | "cat", names => names.foldl (catFile streams) (r.finish 0)
  | "false", _ => r.finish 1
  | "echo", args => (r.write streams.output (plainEchoBytes args)).finish 0
  | "printf", [] => missingOperand streams r "printf"
  | "printf", format :: args =>
    (r.write streams.output (printfBytes format (args.length + 1) args)).finish 0
  | "ln", ["-s", target, name] => { r with links := r.links ++ [(name, target)], status := 0 }
  | _, _ => r.finish 0

/-- Runs a command by its name. -/
def utility (line : Nat) (streams : Streams) (r : Run) (name : String) (args : List String) : Run :=
  match name with
  | ":" | "true" | "cd" | "set" | "trap" | "umask" => r.finish 0
  | "false" => r.finish 1
  | "echo" => (r.write streams.output (echoBytes args)).finish 0
  | "printf" =>
    match args with
    | [] =>
      let place := r.name ++ ": " ++ Text.decimal line
      (r.complain streams (place ++ ": printf: usage: printf format [arg ...]")).finish 2
    | format :: args =>
      (r.write streams.output (printfBytes format (args.length + 1) args)).finish 0
  | "exit" =>
    match args with
    | [] => r.stop (.exited r.status)
    | s :: _ =>
      match Text.natOfAscii? s.toList with
      | some n => (r.finish (n % 256)).stop (.exited (n % 256))
      | none =>
        (r.complain streams
          (r.name ++ ": " ++ Text.decimal line ++ ": exit: Illegal number: " ++ s)).stop (.exited 2)
  | "kill" => if killEnds args then r.stop .killed else r.finish 0
  | "test" => r.finish (statusOf (testHolds args))
  | "[" => r.finish (statusOf (testHolds args.dropLast))
  | "shift" => { r with args := r.args.tail, status := 0 }
  | "export" =>
    (args.foldl (fun r a =>
      match Text.splitFirst? (· == '=') a.toList with
      | some (n, v) => r.assign (String.ofList n) (String.ofList v)
      | none => r) r).finish 0
  | name =>
    match r.external name with
    | some utility => externalUtility streams r utility args
    | none =>
      (r.complain streams (r.name ++ ": " ++ Text.decimal line ++ ": " ++ name ++
        ": not found")).finish 127

/-! ### Commands -/

/-- The assignment that a word is, if it is one. -/
def assignment? : Word → Option (String × Word)
  | w =>
    let step (state : List Char × Option Word) (p : Part) : List Char × Option Word :=
      match state, p with
      | (name, none), .text ['='] false => (name, some [])
      | (name, none), .text s _ => (name ++ s, none)
      | (name, none), .param s _ => (name ++ '$' :: s.toList, none)
      | (name, none), .command s _ => (name ++ '$' :: s, none)
      | (name, some value), p => (name, some (value ++ [p]))
    match w.foldl step ([], none) with
    | (c :: cs, some value) =>
      if !c.isDigit && (c :: cs).all isNameChar then some (String.ofList (c :: cs), value) else none
    | _ => none

/-- Applies the assignments at the beginning of a command; gives the other words. -/
def assignAll (sub : Substitution) (r : Run) : List Word → Run × List Word
  | [] => (r, [])
  | w :: rest =>
    match assignment? w with
    | some (name, value) =>
      let (r, text) := expandWhole sub r value
      assignAll sub (r.assign name text) rest
    | none => (r, w :: rest)

/-- The streams after a redirection. A file takes what is written to it out of sight. -/
def redirect (s : Streams) (x : Redirection) : Streams :=
  let sink := match x.destination with
    | .stream 1 => s.output
    | .stream 2 => s.errors
    | _ => .nowhere
  match x.stream with
  | 0 => { s with input := [] }
  | 1 => { s with output := sink }
  | 2 => { s with errors := sink }
  | _ => s

/-- Runs a simple command. Without a name the status is that of the last command in its words. -/
def execSimple (sub : Substitution) (line : Nat) (streams : Streams) (r : Run) (words : List Word)
    (xs : List Redirection) : Run :=
  let (r, rest) := assignAll sub r words
  let streams := xs.foldl redirect streams
  let (r, texts) := expand sub r rest
  if r.ending.isSome then r
  else
    match texts with
    | [] => if words.any (·.any Part.isCommand) then r else r.finish 0
    | "exec" :: [] => r.finish 0
    | "exec" :: name :: args =>
      let r := utility line streams r name args
      r.stop (.exited r.status)
    | name :: args => utility line streams r name args

/-- The run after a part that ran on its own: only its output, its links, its status and its time
remain, unless the whole run was ended. -/
def rejoin (before after : Run) : Run :=
  let r := { after with name := before.name, args := before.args, vars := before.vars }
  match after.ending with
  | some (.exited n) => { r with status := n, ending := none }
  | _ => r

/-- Runs a command in a word on its own. The line breaks at the end of what it writes are left
out. -/
def substitute (run : Streams → Code → Run → Run) (streams : Streams) : Substitution :=
  fun r script =>
    match parse (String.ofList script) with
    | none => ((r.complain streams (r.name ++ ": 1: Syntax error")).stop (.exited 2), [])
    | some code =>
      let after := rejoin r (run { streams with output := .pipe } code { r with pipe := [] })
      let written := Text.ofBytes (Text.dropEndWhile (· == 10) after.pipe)
      ({ after with pipe := r.pipe }, written.toList)

/-- Runs a command. Every command uses one unit of fuel; a run that has ended does nothing more. -/
def exec : Nat → Streams → Code → Run → Run
  | 0, _, _, r => r.stop .endless
  | fuel + 1, streams, code, r =>
    if r.ending.isSome then r
    else
      match code with
      | .nothing => r
      | .simple line words xs =>
        execSimple (substitute (exec fuel) streams) line streams r words xs
      | .sequence left right => exec fuel streams right (exec fuel streams left r)
      | .both left right =>
        let r := exec fuel streams left r
        if r.status == 0 then exec fuel streams right r else r
      | .either left right =>
        let r := exec fuel streams left r
        if r.status == 0 then r else exec fuel streams right r
      | .negate c =>
        let r := exec fuel streams c r
        r.finish (if r.status == 0 then 1 else 0)
      | .pipe left right =>
        let first :=
          rejoin r (exec fuel { streams with output := .pipe } left { r with pipe := [] })
        let second := { first with pipe := r.pipe }
        rejoin second (exec fuel { streams with input := first.pipe } right second)
      | .group body separate xs =>
        let after := exec fuel (xs.foldl redirect streams) body r
        if separate then rejoin r after else after
      | .branch test yes no =>
        let r := exec fuel streams test r
        if r.status == 0 then
          exec fuel streams yes r
        else exec fuel streams no { r with status := 0 }
      | .loop whileTrue test body =>
        let r := exec fuel streams test r
        if (r.status == 0) == whileTrue then exec fuel streams code (exec fuel streams body r)
        else r.finish 0
      | .each name words body =>
        let (r, values) := expand (substitute (exec fuel) streams) r words
        values.foldl (fun r value => exec fuel streams body (r.assign name value)) r

/-! ### Scripts -/

/-- The outcome of a script: its status unless it was killed, what it wrote, the time it took unless
it is endless, and the names and targets of the links it made. -/
structure Outcome where
  status : Option Nat
  output : List UInt8
  errors : List UInt8
  elapsed : Option Nat
  links : List (String × String)

/-- The number of commands after which a run is taken to be endless. -/
def patience : Nat := 10000

/-- The outcome of a run. -/
def Run.outcome (r : Run) : Outcome :=
  { status := match r.ending with
      | some .killed => none
      | some (.exited n) => some n
      | _ => some r.status
    output := r.output
    errors := r.errors
    elapsed := if r.ending = some .endless then none else some r.elapsed
    links := r.links }

/-- A run at its beginning. -/
def Run.start (name : String) (args : List String) (vars : List (String × String))
    (external files : String → Option String) : Run :=
  ⟨name, args, vars, external, files, [], [], [], 0, 0, [], none⟩

/-- The streams of a script that reads nothing. -/
def Streams.plain : Streams := ⟨.output, .errors, []⟩

/-- Runs a script. One that cannot be read ends with an error. -/
def runScript (script : String) (r : Run) : Outcome :=
  match parse script with
  | none => ⟨some 2, [], Text.rawBytes (r.name ++ ": 1: Syntax error\n"), some 0, []⟩
  | some code => (exec patience .plain code r).outcome

end EnvDiscovery.Script
