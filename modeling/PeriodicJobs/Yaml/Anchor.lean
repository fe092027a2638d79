import PeriodicJobs.Yaml.Mapping

set_option autoImplicit false

/- What references stand for.

An anchor gets as its number how many names are known before it. An anchor whose name is known
already may thus share its number with another name's anchor, and a number stands for the last node
that got it in the whole document. -/
namespace PeriodicJobs.Yaml

/-- The numbers of the anchors that have been passed: the number of every name, and the nodes that
got the numbers, the last one first. A mapping as a node holds no scalar. -/
structure Anchors where
  numbers : List (String × Nat) := []
  nodes : List (Nat × Option Scalar) := []

/-- A node as it is left when references have got their numbers. -/
inductive Numbered where
  | scalar (content : Scalar)
  | reference (number : Nat)

namespace Anchors

def pass (anchor : Option String) (content : Option Scalar) (anchors : Anchors) : Anchors :=
  match anchor with
  | none => anchors
  | some name =>
    let number := anchors.numbers.length
    ⟨(name, number) :: anchors.numbers.filter (·.1 != name), (number, content) :: anchors.nodes⟩

/-- Passes a node. A name has to be known before a reference to it. -/
def number? (node : Node) (anchors : Anchors) : Option (Numbered × Anchors) :=
  match node with
  | .scalar anchor content => some (.scalar content, anchors.pass anchor (some content))
  | .reference name =>
    (anchors.numbers.lookup name).map fun number => (.reference number, anchors)

def numberEntries? (anchors : Anchors) :
    List (Node × Node) → Option (List (Numbered × Numbered) × Anchors)
  | [] => some ([], anchors)
  | (key, value) :: rest => do
    let (key, anchors) ← anchors.number? key
    let (value, anchors) ← anchors.number? value
    let (entries, anchors) ← anchors.numberEntries? rest
    return ((key, value) :: entries, anchors)

def scalar? (anchors : Anchors) : Numbered → Option Scalar
  | .scalar content => some content
  | .reference number => (anchors.nodes.lookup number).join

end Anchors

/-- The entries of a mapping in the order of the document. -/
abbrev Entries : Type := List (String × Scalar)

/-- Puts scalars for the nodes of a mapping, given its own anchor. -/
def resolve? (anchor : Option String) (nodes : List (Node × Node)) : Option Entries := do
  let (entries, anchors) ← (({} : Anchors).pass anchor none).numberEntries? nodes
  entries.mapM fun (key, value) => do
    let key ← anchors.scalar? key
    let value ← anchors.scalar? value
    return (key.text, value)

end PeriodicJobs.Yaml
