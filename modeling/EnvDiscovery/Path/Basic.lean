import EnvDiscovery.Text.Blank
import EnvDiscovery.Text.Utf8

/-!
**Paths.**

A path is kept as it is written. Its meaning is the list of its components: repeated and trailing
slashes and inner single dots name nothing.

A name on disk is a sequence of bytes and need not be a text. The bytes that are part of no
character are kept in a path as stray bytes, by which its components are told apart. Where a path
is shown, replacement characters stand for them.
Three places take stray bytes for ordinary characters: paths that are written as JSON values, the
patterns of watched files, and the order of the names in a directory.

Main definitions:
* `Path` — a path as a text that may have stray bytes;
* `Path.shown` — the text that is shown for it;
* `Path.components` — what it names, step by step;
* `Path.join`, `Path.parent?`, `Path.fileName?` — moving down, moving up, the last name;
* `Path.startsWith`, `Path.relativeTo?` — containment by components.
-/

namespace EnvDiscovery

/-- A path as it is written, with stray bytes where it is no text. -/
structure Path where
  text : String
deriving DecidableEq, Repr, Inhabited

namespace Path

/-- The text that is shown for a path. -/
def shown (p : Path) : String :=
  Text.shown p.text

/-- One step of a path. -/
inductive Component where
  | root
  | here
  | up
  | name (text : String)
deriving DecidableEq, Repr

/-- The spelling of a component inside a path. -/
def Component.text : Component → String
  | root => ""
  | here => "."
  | up => ".."
  | name s => s

/-- The texts between slashes. -/
def segments (p : Path) : List String :=
  (p.text.toList.splitOn '/').map String.ofList

/-- A segment that names nothing when it is not the first. -/
def isTrivial (s : String) : Bool :=
  s == "" || s == "."

/-- The component that a nontrivial segment names. -/
def componentOf (s : String) : Component :=
  if s = ".." then .up else .name s

/-- Separates the leading component `/` or `.` from the segments after it. -/
def parts (p : Path) : Option Component × List String :=
  match p.segments with
  | "" :: s :: rest => (some .root, s :: rest)
  | "." :: rest => (some .here, rest)
  | segs => (none, segs)

/-- The path with the given leading component and segments. -/
def ofParts : Option Component → List String → Path
  | some .root, segs => ⟨"/" ++ "/".intercalate segs⟩
  | some c, [] => ⟨c.text⟩
  | some c, segs => ⟨c.text ++ "/" ++ "/".intercalate segs⟩
  | none, segs => ⟨"/".intercalate segs⟩

/-- What a path names, step by step. -/
def components (p : Path) : List Component :=
  p.parts.1.toList ++ (p.parts.2.filter (!isTrivial ·)).map componentOf

/-- The plain spelling of a list of components. -/
def ofComponents : List Component → Path
  | .root :: rest => ⟨"/" ++ "/".intercalate (rest.map Component.text)⟩
  | cs => ⟨"/".intercalate (cs.map Component.text)⟩

/-- Whether a path starts at the root. -/
def isAbsolute (p : Path) : Bool :=
  p.text.toList.head? == some '/'

/-- The path `q` seen from `p`: an absolute `q` stands alone. -/
def join (p q : Path) : Path :=
  if q.isAbsolute || p.text.isEmpty then q
  else if p.text.toList.getLast? == some '/' then ⟨p.text ++ q.text⟩
  else ⟨p.text ++ "/" ++ q.text⟩

instance : HDiv Path String Path where
  hDiv p s := p.join ⟨s⟩

/-- The path without its last component, if it has one to lose. -/
def parent? (p : Path) : Option Path :=
  match p.parts with
  | (lead, segs) =>
    match Text.dropEndWhile isTrivial segs, lead with
    | [], some .here => some ⟨""⟩
    | [], _ => none
    | core, _ => some (ofParts lead (Text.dropEndWhile isTrivial core.dropLast))

/-- The last component, if it is a name. -/
def fileName? (p : Path) : Option String :=
  match p.components.getLast? with
  | some (.name s) => some s
  | _ => none

/-- Whether the components of `base` open those of `p`. -/
def startsWith (p base : Path) : Bool :=
  base.components.isPrefixOf p.components

/-- Whether two paths have the same components. -/
def sameComponents (p q : Path) : Bool :=
  p.components == q.components

/-- Passes over the segments that spell the given components. -/
def passOver : List Component → List String → Option (List String)
  | [], segs => some segs
  | _ :: _, [] => none
  | c :: cs, s :: segs =>
    if isTrivial s then passOver (c :: cs) segs
    else if componentOf s = c then passOver cs segs
    else none

/-- What is left of `p` below `base`, as it is written. -/
def relativeTo? (p base : Path) : Option Path :=
  match p.parts, base.components with
  | (lead, segs), [] => some (ofParts lead (Text.dropEndWhile isTrivial segs))
  | (none, segs), cs => below (passOver cs segs)
  | (some lead, segs), c :: cs => if lead = c then below (passOver cs segs) else none
where
  /-- The path of the remaining segments. -/
  below (rest : Option (List String)) : Option Path :=
    rest.map fun segs => ofParts none (Text.dropEndWhile isTrivial (segs.dropWhile isTrivial))

end Path

end EnvDiscovery
