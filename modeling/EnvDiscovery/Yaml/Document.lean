import EnvDiscovery.Yaml.Node

/-!
**Documents with their references resolved.**

A name stands for the node that was last given it. Names are numbered, and a node is found by the
number that its name had when it was given: the count of the names in use until then.

Main definitions:
* `Yaml.Binding` — the numbers of the names in use;
* `Yaml.NodeOf.link` — a tree in which references are numbers, and the nodes that the numbers stand
  for;
* `Yaml.Document`, `Yaml.Document.parse` — a tree with those nodes;
* `Yaml.Document.target` — a node, or the one that it refers to.
-/

namespace EnvDiscovery.Yaml

/-- The numbers of the names in use. -/
abbrev Binding := List (String × Nat)

/-- A tree in which references are numbers. -/
abbrev LinkedNode := NodeOf Nat

/-- The nodes that numbers stand for, earliest first; of two nodes with one number the later
counts. -/
abbrev Targets := List (Nat × LinkedNode)

/-- The number of a name that is given now, if one is given, and the numbers after that. -/
def Binding.bind (names : Binding) (anchor : Option String) : Option Nat × Binding :=
  match anchor with
  | none => (none, names)
  | some name => (some names.length, (name, names.length) :: names.filter (·.1 != name))

/-- The entry of a node under its number. -/
def targetOf (number : Option Nat) (n : LinkedNode) : Targets :=
  number.toList.map (·, n)

mutual

/-- A tree in which references are numbers, the numbers of names after it, and the nodes that were
given names. Nothing if a reference has no name before it. -/
def NodeOf.link (names : Binding) : Node → Option (LinkedNode × Binding × Targets)
  | .scalar anchor s =>
    let (number, names) := names.bind anchor
    let n : LinkedNode := .scalar anchor s
    some (n, names, targetOf number n)
  | .sequence anchor items =>
    let (number, names) := names.bind anchor
    (linkItems names items).map fun (items, names, targets) =>
      let n : LinkedNode := .sequence anchor items
      (n, names, targetOf number n ++ targets)
  | .mapping anchor entries =>
    let (number, names) := names.bind anchor
    (linkEntries names entries).map fun (entries, names, targets) =>
      let n : LinkedNode := .mapping anchor entries
      (n, names, targetOf number n ++ targets)
  | .reference name => (names.lookup name).map fun number => (.reference number, names, [])

/-- Links items in order. -/
def linkItems (names : Binding) : List Node → Option (List LinkedNode × Binding × Targets)
  | [] => some ([], names, [])
  | n :: rest =>
    match NodeOf.link names n with
    | none => none
    | some (n, names, first) =>
      (linkItems names rest).map fun (rest, names, more) => (n :: rest, names, first ++ more)

/-- Links the keys and values of entries in order. -/
def linkEntries (names : Binding) :
    List (Node × Node) → Option (List (LinkedNode × LinkedNode) × Binding × Targets)
  | [] => some ([], names, [])
  | (k, v) :: rest =>
    match NodeOf.link names k with
    | none => none
    | some (k, names, ofKey) =>
      match NodeOf.link names v with
      | none => none
      | some (v, names, ofValue) =>
        (linkEntries names rest).map fun (rest, names, more) =>
          ((k, v) :: rest, names, ofKey ++ ofValue ++ more)

end

/-- A document: its root, if the text holds anything, and the nodes that references stand for. -/
structure Document where
  root : Option LinkedNode
  targets : Targets

namespace Document

/-- The document of a text; nothing if the text is malformed. -/
def parse (text : String) : Option Document :=
  match document text with
  | none => none
  | some .nothing => some ⟨none, []⟩
  | some (.node root) => (NodeOf.link [] root).map fun (root, _, targets) => ⟨some root, targets⟩

/-- A node, or the one that it refers to. -/
def target (d : Document) : LinkedNode → Option LinkedNode
  | .reference number => d.targets.reverse.lookup number
  | n => some n

end Document

end EnvDiscovery.Yaml
