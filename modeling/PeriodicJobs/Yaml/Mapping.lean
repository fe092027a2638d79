import PeriodicJobs.Yaml.Node

set_option autoImplicit false

/- Mappings of scalars to scalars, in block and in flow style. -/
namespace PeriodicJobs.Yaml

/-- Whether a node in block style is left out before a token. -/
def Token.endsBlock : Token → Bool
  | .key | .value | .mappingEnd => true
  | _ => false

/-- Whether a value in braces is left out before a token. -/
def Token.endsFlow : Token → Bool
  | .comma | .braceClose => true
  | _ => false

def valueBefore? (handles : Handles) (ends : Token → Bool) (tokens : List Token) :
    Option (Node × List Token) :=
  match tokens with
  | .value :: rest => nodeBefore? handles ends rest
  | rest => some (.absent, rest)

/-- Reads the entries of a block mapping up to its end, at most `limit` of them. -/
def blockEntries? (handles : Handles) :
    Nat → List Token → Option (List (Node × Node) × List Token)
  | limit + 1, .key :: rest => do
    let (key, rest) ← nodeBefore? handles Token.endsBlock rest
    let (value, rest) ← valueBefore? handles Token.endsBlock rest
    let (entries, rest) ← blockEntries? handles limit rest
    return ((key, value) :: entries, rest)
  | _, .mappingEnd :: rest => some ([], rest)
  | _, _ => none

/-- Reads an entry in braces. A node that is not announced as a key is one without a value. -/
def flowEntry? (handles : Handles) (tokens : List Token) : Option ((Node × Node) × List Token) :=
  match tokens with
  | .key :: rest => do
    let (key, rest) ← nodeBefore? handles (fun token => token == .value || token.endsFlow) rest
    let (value, rest) ← valueBefore? handles Token.endsFlow rest
    return ((key, value), rest)
  | rest => (node? handles rest).map fun (key, rest) => ((key, .absent), rest)

/-- Reads the entries in braces up to the closing one, at most `limit` of them. A comma may stand
behind the last one. -/
def flowEntries? (handles : Handles) :
    Nat → List Token → Option (List (Node × Node) × List Token)
  | _, .braceClose :: rest => some ([], rest)
  | 0, _ => none
  | limit + 1, tokens => do
    let (entry, rest) ← flowEntry? handles tokens
    match rest with
    | .braceClose :: rest => return ([entry], rest)
    | .comma :: rest =>
      let (entries, rest) ← flowEntries? handles limit rest
      return (entry :: entries, rest)
    | _ => none

end PeriodicJobs.Yaml
