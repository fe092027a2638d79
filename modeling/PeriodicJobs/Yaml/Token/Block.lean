import PeriodicJobs.Yaml.Token.Plain

set_option autoImplicit false

/- Block scalars: indented lines that are kept as they are, or folded into one. -/
namespace PeriodicJobs.Yaml

/-- What becomes of the line breaks at the end of a block scalar. -/
inductive Chomping where
  | strip
  | clip
  | keep

def chomping? : Char → Option Chomping
  | '-' => some .strip
  | '+' => some .keep
  | _ => none

/-- An explicit indentation, from one to nine. -/
def indentation? (c : Char) : Option Nat :=
  if '1' ≤ c ∧ c ≤ '9' then some (c.toNat - 48) else none

/-- Reads the chomping and the indentation of a block scalar in either order; zero stands for an
indentation that is not given. -/
def blockHeader (source : Source) : Chomping × Nat × Source :=
  match source with
  | [] => (.clip, 0, [])
  | m :: rest =>
    match chomping? m.char, indentation? m.char, rest with
    | some chomping, _, next :: more =>
      match indentation? next.char with
      | some indent => (chomping, indent, more)
      | none => (chomping, 0, rest)
    | some chomping, _, [] => (chomping, 0, [])
    | none, some indent, next :: more =>
      match chomping? next.char with
      | some chomping => (chomping, indent, more)
      | none => (.clip, indent, rest)
    | none, some indent, [] => (.clip, indent, [])
    | none, none, _ => (.clip, 0, source)

/-- Passes blanks and a comment up to the next line, which nothing else may precede. -/
def nextLine? (source : Source) : Option Source :=
  let rest := source.dropWhile fun m : Mark => isSpace m.char
  let rest := match rest with
    | [] => []
    | m :: _ => if m.char = '#' then rest.dropWhile fun m : Mark => !isBreak m.char else rest
  match rest with
  | [] => some []
  | m :: more => if isBreak m.char then some more else none

/-- Passes the indentation and the empty lines before a line of a block scalar. Yields the line
breaks and the widest indentation seen; while the indentation is not known, every space is one. -/
def blockBreaks (indent : Nat) (breaks : List Char) (widest : Nat) :
    Source → Option (List Char × Nat × Source)
  | [] => some (breaks, widest, [])
  | m :: rest =>
    let widest := max widest m.column
    let inside := indent == 0 || m.column < indent
    if inside && m.char == ' ' then blockBreaks indent breaks widest rest
    else if inside && m.char == '\t' then none
    else if isBreak m.char then blockBreaks indent (breaks ++ [m.char]) widest rest
    else some (breaks, widest, m :: rest)

/-- A block scalar under way: its text, the break behind the last line, the breaks of the empty
lines after it, and whether that line starts with a blank. -/
structure Block where
  text : List Char
  lead : List Char
  breaks : List Char
  blank : Bool

/-- What stands for the breaks before the next line. Only between two lines that start with no
blank is a break folded. -/
def Block.joint (folded blank : Bool) (block : Block) : List Char :=
  if folded && block.lead == ['\n'] && !block.blank && !blank then
    if block.breaks.isEmpty then [' '] else block.breaks
  else block.lead ++ block.breaks

/-- Reads lines of a block scalar, at most `limit` of them. -/
def blockLines (folded : Bool) (indent : Nat) : Nat → Block → Source → Option (Block × Source)
  | 0, block, source => some (block, source)
  | _ + 1, block, [] => some (block, [])
  | limit + 1, block, m :: rest =>
    if m.column ≠ indent then some (block, m :: rest)
    else
      let blank := isSpace m.char
      let line := ((m :: rest).takeWhile fun m : Mark => !isBreak m.char).map (·.char)
      let text := line.reverse ++ (block.joint folded blank).reverse ++ block.text
      match (m :: rest).dropWhile fun m : Mark => !isBreak m.char with
      | [] => some (⟨text, [], [], blank⟩, [])
      | lead :: more =>
        match blockBreaks indent [] 0 more with
        | none => none
        | some (breaks, _, after) =>
          blockLines folded indent limit ⟨text, [lead.char], breaks, blank⟩ after

/-- Reads a block scalar behind its indicator. Its lines stand at column `floor` at the least. -/
def blockScalar (folded : Bool) (floor : Nat) (source : Source) :
    Option (List Char × Place) := do
  let (chomping, given, rest) := blockHeader source
  let rest ← nextLine? rest
  let indent := if given = 0 then 0 else floor - 1 + given
  let (breaks, widest, rest) ← blockBreaks indent [] 0 rest
  let indent := if indent = 0 then max (max widest floor) 1 else indent
  let (block, rest) ← blockLines folded indent rest.length ⟨[], [], breaks, false⟩ rest
  let tail := match chomping with
    | .strip => []
    | .clip => block.lead
    | .keep => block.lead ++ block.breaks
  return (tail.reverse ++ block.text, ⟨true, rest⟩)

end PeriodicJobs.Yaml
