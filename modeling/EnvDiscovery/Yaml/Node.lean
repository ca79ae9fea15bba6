import EnvDiscovery.Yaml.Token

/-!
**YAML documents as trees.**

Main definitions:
* `Yaml.Scalar`, `Yaml.NodeOf`, `Yaml.Node` — trees with named nodes and references to them;
* `Yaml.Tags` — how the handles of tags are expanded;
* `Yaml.parseNode` — the tree that tokens describe;
* `Yaml.document` — the only document of a text.
-/

namespace EnvDiscovery.Yaml

/-- A scalar: its text, how it is written, and its tag. -/
structure Scalar where
  text : String
  style : ScalarStyle
  tag : Option String
deriving DecidableEq, Repr

/-- The scalar that stands for a missing node. -/
def Scalar.missing : Scalar := ⟨"", .plain, none⟩

/-- A tree. Nodes may be given names, and a reference of type `ρ` stands for a named node. -/
inductive NodeOf (ρ : Type) where
  | scalar (anchor : Option String) (s : Scalar)
  | sequence (anchor : Option String) (items : List (NodeOf ρ))
  | mapping (anchor : Option String) (entries : List (NodeOf ρ × NodeOf ρ))
  | reference (target : ρ)

/-- A tree in which references are names. -/
abbrev Node := NodeOf String

/-- The node that stands where nothing is written. -/
def Node.missing : Node := .scalar none .missing

/-- The expansions of the handles of tags. -/
abbrev Tags := List (String × String)

/-- The expansions that hold unless a directive says otherwise. -/
def Tags.usual : Tags := [("!", "!"), ("!!", "tag:yaml.org,2002:")]

/-- The full tag of a handle and a suffix; without a handle the suffix is the tag. -/
def Tags.expand? (tags : Tags) (handle suffix : String) : Option String :=
  if handle.isEmpty then some suffix else (tags.lookup handle).map (· ++ suffix)

/-- The name and the tag before a node, in either order, and the tokens after them. -/
def properties (tags : Tags) : List Token → Option (Option String × Option String × List Token)
  | .anchor name :: .tag handle suffix :: rest | .tag handle suffix :: .anchor name :: rest =>
    (tags.expand? handle suffix).map fun t => (some name, some t, rest)
  | .anchor name :: rest => some (some name, none, rest)
  | .tag handle suffix :: rest => (tags.expand? handle suffix).map fun t => (none, some t, rest)
  | rest => some (none, none, rest)

/-- The tag that a scalar keeps: a lone exclamation mark is none. -/
def keptTag (tag : Option String) : Option String :=
  tag.filter (· != "!")

/-- The node that a name or a tag alone makes. -/
def bareNode (anchor tag : Option String) (rest : List Token) : Option (Node × List Token) :=
  if anchor.isSome || tag.isSome then
    some (.scalar anchor { Scalar.missing with tag := tag }, rest)
  else none

/-- Whether a block ends where a node could begin. -/
def endsPair : List Token → Bool
  | .key :: _ | .value :: _ | .blockEnd :: _ => true
  | _ => false

/-- Whether an entry of a block sequence has no node. -/
def endsEntry (indentless : Bool) : List Token → Bool
  | .blockEntry :: _ | .blockEnd :: _ => true
  | ts => indentless && endsPair ts

/-- Whether a key in braces has no node. -/
def endsFlowKey : List Token → Bool
  | .value :: _ | .flowEntry :: _ | .flowMappingEnd :: _ => true
  | _ => false

/-- Whether a value in braces has no node. -/
def endsFlowValue : List Token → Bool
  | .flowEntry :: _ | .flowMappingEnd :: _ => true
  | _ => false

/-- Whether a value of a single pair in brackets has no node. -/
def endsSingleValue : List Token → Bool
  | .flowEntry :: _ | .flowSequenceEnd :: _ => true
  | _ => false

mutual

/-- A node. In a block it may be a block collection, and where `indentless` says so a sequence that
is not indented. Every call uses one unit of fuel. -/
def parseNode (tags : Tags) (block indentless : Bool) :
    Nat → List Token → Option (Node × List Token)
  | 0, _ => none
  | fuel + 1, ts =>
    match ts with
    | .reference name :: rest => some (.reference name, rest)
    | _ =>
      match properties tags ts with
      | none => none
      | some (anchor, tag, ts) =>
        match ts with
        | .scalar text style :: rest => some (.scalar anchor ⟨text, style, keptTag tag⟩, rest)
        | .flowSequenceStart :: rest =>
          (parseFlowItems tags true fuel rest).map fun (items, rest) =>
            (.sequence anchor items, rest)
        | .flowMappingStart :: rest =>
          (parseFlowPairs tags true fuel rest).map fun (entries, rest) =>
            (.mapping anchor entries, rest)
        | .blockEntry :: _ =>
          if indentless then
            (parseEntries tags true fuel ts).map fun (items, rest) => (.sequence anchor items, rest)
          else bareNode anchor tag ts
        | .blockSequenceStart :: rest =>
          if block then
            (parseEntries tags false fuel rest).map fun (items, rest) =>
              (.sequence anchor items, rest)
          else bareNode anchor tag ts
        | .blockMappingStart :: rest =>
          if block then
            (parsePairs tags fuel rest).map fun (entries, rest) => (.mapping anchor entries, rest)
          else bareNode anchor tag ts
        | ts => bareNode anchor tag ts

/-- The entries of a block sequence. One that is not indented ends before the first other token, an
indented one at the end of its block. -/
def parseEntries (tags : Tags) (indentless : Bool) :
    Nat → List Token → Option (List Node × List Token)
  | 0, _ => none
  | fuel + 1, ts =>
    match ts with
    | .blockEntry :: rest =>
      let first := if endsEntry indentless rest then some (Node.missing, rest)
        else parseNode tags true false fuel rest
      match first with
      | none => none
      | some (item, rest) =>
        (parseEntries tags indentless fuel rest).map fun (items, rest) => (item :: items, rest)
    | .blockEnd :: rest => if indentless then some ([], ts) else some ([], rest)
    | _ => if indentless then some ([], ts) else none

/-- The pairs of a block mapping. -/
def parsePairs (tags : Tags) : Nat → List Token → Option (List (Node × Node) × List Token)
  | 0, _ => none
  | fuel + 1, ts =>
    match ts with
    | .blockEnd :: rest => some ([], rest)
    | .key :: rest =>
      let key := if endsPair rest then some (Node.missing, rest)
        else parseNode tags true true fuel rest
      match key with
      | none => none
      | some (key, rest) =>
        match parsePairValue tags fuel rest with
        | none => none
        | some (value, rest) =>
          (parsePairs tags fuel rest).map fun (entries, rest) => ((key, value) :: entries, rest)
    | _ => none

/-- The value of a pair in a block mapping. -/
def parsePairValue (tags : Tags) : Nat → List Token → Option (Node × List Token)
  | 0, _ => none
  | fuel + 1, ts =>
    match ts with
    | .value :: rest =>
      if endsPair rest then some (Node.missing, rest) else parseNode tags true true fuel rest
    | _ => some (Node.missing, ts)

/-- The items of a sequence in brackets. A key among them makes a mapping of one pair. -/
def parseFlowItems (tags : Tags) (first : Bool) : Nat → List Token → Option (List Node × List Token)
  | 0, _ => none
  | fuel + 1, ts =>
    match ts with
    | .flowSequenceEnd :: rest => some ([], rest)
    | _ =>
      let begun := if first then some ts else match ts with
        | .flowEntry :: rest => some rest
        | _ => none
      match begun with
      | none => none
      | some (.flowSequenceEnd :: rest) => some ([], rest)
      | some ts =>
        let item := match ts with
          | .key :: rest => parseSinglePair tags fuel rest
          | _ => parseNode tags false false fuel ts
        match item with
        | none => none
        | some (item, rest) =>
          (parseFlowItems tags false fuel rest).map fun (items, rest) => (item :: items, rest)

/-- A mapping of one pair in brackets. Where its key is missing the next token is passed over. -/
def parseSinglePair (tags : Tags) : Nat → List Token → Option (Node × List Token)
  | 0, _ => none
  | fuel + 1, ts =>
    let key := match ts with
      | .value :: rest | .flowEntry :: rest | .flowSequenceEnd :: rest => some (Node.missing, rest)
      | _ => parseNode tags false false fuel ts
    match key with
    | none => none
    | some (key, rest) =>
      let value := match rest with
        | .value :: rest =>
          if endsSingleValue rest then
            some (Node.missing, rest)
          else parseNode tags false false fuel rest
        | _ => some (Node.missing, rest)
      value.map fun (value, rest) => (.mapping none [(key, value)], rest)

/-- The pairs of a mapping in braces. -/
def parseFlowPairs (tags : Tags) (first : Bool) : Nat → List Token →
    Option (List (Node × Node) × List Token)
  | 0, _ => none
  | fuel + 1, ts =>
    match ts with
    | .flowMappingEnd :: rest => some ([], rest)
    | _ =>
      let begun := if first then some ts else match ts with
        | .flowEntry :: rest => some rest
        | _ => none
      match begun with
      | none => none
      | some (.flowMappingEnd :: rest) => some ([], rest)
      | some ts =>
        match parseFlowPair tags fuel ts with
        | none => none
        | some (pair, rest) =>
          (parseFlowPairs tags false fuel rest).map fun (entries, rest) => (pair :: entries, rest)

/-- One pair in braces. A node without a key mark has no value. -/
def parseFlowPair (tags : Tags) : Nat → List Token → Option ((Node × Node) × List Token)
  | 0, _ => none
  | fuel + 1, ts =>
    match ts with
    | .key :: rest =>
      let key := if endsFlowKey rest then some (Node.missing, rest)
        else parseNode tags false false fuel rest
      match key with
      | none => none
      | some (key, rest) =>
        let value := match rest with
          | .value :: rest =>
            if endsFlowValue rest then
              some (Node.missing, rest)
            else parseNode tags false false fuel rest
          | _ => some (Node.missing, rest)
        value.map fun (value, rest) => ((key, value), rest)
    | _ => (parseNode tags false false fuel ts).map fun (key, rest) => ((key, Node.missing), rest)

end

/-! ### Documents -/

/-- The directives before a document: at most one version, which must be known, and each handle
once. -/
def directives (versionSeen : Bool) (tags : Tags) : List Token → Option (Tags × List Token)
  | .versionDirective major minor :: rest =>
    if versionSeen || major != 1 || (minor != 1 && minor != 2) then none
    else directives true tags rest
  | .tagDirective handle expansion :: rest =>
    if (tags.lookup handle).isSome then
      none
    else directives versionSeen (tags ++ [(handle, expansion)]) rest
  | rest => some (tags, rest)

/-- Whether a document has no content. -/
def endsDocument : List Token → Bool
  | .versionDirective .. :: _ | .tagDirective .. :: _ | .documentStart :: _
  | .documentEnd :: _ | [] => true
  | _ => false

/-- The root of a document. -/
def parseRoot (tags : Tags) (ts : List Token) : Option (Node × List Token) :=
  parseNode tags true false (4 * ts.length + 8) ts

/-- The first document and the tokens after it. One without directives needs no mark at its
start. -/
def parseDocument (ts : List Token) : Option (Node × List Token) :=
  match ts with
  | .documentStart :: _ | .versionDirective .. :: _ | .tagDirective .. :: _ =>
    match directives false [] ts with
    | some (tags, .documentStart :: rest) =>
      if endsDocument rest then some (Node.missing, rest) else parseRoot (tags ++ .usual) rest
    | _ => none
  | _ => parseRoot .usual ts

/-- What a text holds: nothing, or one document. -/
inductive Content where
  | nothing
  | node (root : Node)

/-- The only document of a text; nothing at all if the text is malformed or holds more than one. -/
def document (text : String) : Option Content :=
  match tokens text with
  | none => none
  | some [] => some .nothing
  | some ts =>
    match parseDocument ts with
    | none => none
    | some (root, rest) =>
      if rest.all (· == .documentEnd) then some (.node root) else none

end EnvDiscovery.Yaml
