import PeriodicJobs.Yaml.Anchor
import PeriodicJobs.Yaml.Token.Lexer

set_option autoImplicit false

/- YAML documents that hold one mapping of scalars to scalars.

Settings need no more of the language: a document with any other content is refused as a malformed
one is. -/
namespace PeriodicJobs.Yaml

structure Declarations where
  version : Bool := false
  handles : Handles := []

/-- Reads the directives before a document. The version of the language is 1.1 or 1.2 and declared
once, and so is every handle. -/
def declarations? (found : Declarations) : List Token → Option (Declarations × List Token)
  | .version major minor :: rest =>
    if found.version ∨ major ≠ 1 ∨ minor ≠ 1 ∧ minor ≠ 2 then none
    else declarations? { found with version := true } rest
  | .handle name stem :: rest =>
    if (found.handles.lookup name).isSome then none
    else declarations? { found with handles := (name, stem) :: found.handles } rest
  | rest => some (found, rest)

/-- Reads the mapping of a document. Properties alone are one without entries. -/
def mapping? (handles : Handles) (tokens : List Token) : Option (Entries × List Token) := do
  let (own, rest) ← properties? handles tokens
  match rest with
  | .mappingStart :: rest =>
    let (nodes, rest) ← blockEntries? handles rest.length rest
    return (← resolve? own.anchor nodes, rest)
  | .braceOpen :: rest =>
    let (nodes, rest) ← flowEntries? handles rest.length rest
    return (← resolve? own.anchor nodes, rest)
  | .scalar _ _ :: _ => none
  | rest => if own.anchor.isSome || own.tag.isSome then return ([], rest) else none

/-- Whether an announced document is left out before a token. -/
def Token.endsDocument : Token → Bool
  | .version _ _ | .handle _ _ | .documentStart | .documentEnd => true
  | _ => false

/-- Reads a document that is announced by the marker of its start. -/
def announced? (handles : Handles) (tokens : List Token) : Option (Entries × List Token) :=
  if tokens.head?.all Token.endsDocument then some ([], tokens) else mapping? handles tokens

/-- Reads the only document of a text; a text of no tokens holds an empty one. Directives need the
marker of a document's start. -/
def document? (tokens : List Token) : Option (Entries × List Token) := do
  let (found, rest) ← declarations? {} tokens
  match rest with
  | .documentStart :: rest => announced? (found.handles ++ defaultHandles) rest
  | rest =>
    if tokens.isEmpty then some ([], [])
    else if found.version || !found.handles.isEmpty then none
    else mapping? defaultHandles rest

/-- The entries of the only document of a text, behind which only markers of its end may stand. -/
def entries? (text : List Char) : Option Entries := do
  let (entries, rest) ← document? (← tokens? text)
  if rest.all (· == .documentEnd) then return entries else none

end PeriodicJobs.Yaml
