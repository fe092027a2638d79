import PeriodicJobs.Yaml.Token

set_option autoImplicit false

/- The nodes of a document that are scalars, or references to nodes with an anchor. -/
namespace PeriodicJobs.Yaml

/-- A scalar with its tag in full. -/
structure Scalar where
  style : Style
  tag : Option (List UInt8)
  text : String
deriving DecidableEq

inductive Node where
  | scalar (anchor : Option String) (content : Scalar)
  | reference (name : String)
deriving DecidableEq

/-- What stands where a node is left out. -/
def Node.absent : Node := .scalar none ⟨.plain, none, ""⟩

/-- What handles of tags stand for. -/
abbrev Handles : Type := List (String × List UInt8)

/-- The handles that every document knows. -/
def defaultHandles : Handles :=
  [("!", asciiBytes ['!']), ("!!", asciiBytes "tag:yaml.org,2002:".toList)]

def WrittenTag.resolve? (handles : Handles) (tag : WrittenTag) : Option (List UInt8) :=
  match tag.handle with
  | none => some tag.suffix
  | some handle => (handles.lookup handle).map (· ++ tag.suffix)

structure Properties where
  anchor : Option String := none
  tag : Option (List UInt8) := none

/-- Reads the properties of a node, at most one of either kind in either order. -/
def properties? (handles : Handles) (tokens : List Token) : Option (Properties × List Token) :=
  match tokens with
  | .anchor name :: .tag tag :: rest =>
    (tag.resolve? handles).map fun tag => (⟨some name, some tag⟩, rest)
  | .tag tag :: .anchor name :: rest =>
    (tag.resolve? handles).map fun tag => (⟨some name, some tag⟩, rest)
  | .anchor name :: rest => some (⟨some name, none⟩, rest)
  | .tag tag :: rest => (tag.resolve? handles).map fun tag => (⟨none, some tag⟩, rest)
  | rest => some ({}, rest)

/-- Reads a node. With properties its content may be left out; a mapping is no content here. -/
def node? (handles : Handles) (tokens : List Token) : Option (Node × List Token) :=
  match tokens with
  | .reference name :: rest => some (.reference name, rest)
  | _ => do
    let (own, rest) ← properties? handles tokens
    match rest with
    | .scalar style text :: rest => return (.scalar own.anchor ⟨style, own.tag, text⟩, rest)
    | .mappingStart :: _ => none
    | .braceOpen :: _ => none
    | rest =>
      if own.anchor.isSome || own.tag.isSome then
        return (.scalar own.anchor ⟨.plain, own.tag, ""⟩, rest)
      else none

/-- Reads a node that is left out before the tokens that satisfy a condition, and at the end. -/
def nodeBefore? (handles : Handles) (ends : Token → Bool) (tokens : List Token) :
    Option (Node × List Token) :=
  if tokens.head?.all ends then some (.absent, tokens) else node? handles tokens

end PeriodicJobs.Yaml
