import PeriodicJobs.Pattern.Reader

set_option autoImplicit false

/- Which patterns can be matched.

Matching goes by bytes and has no table of characters. So what rests on a property of the characters
beyond ASCII cannot be matched, and neither can what might match a part of a character. -/
namespace PeriodicJobs.Pattern

/-- The modes that decide what can be matched. -/
structure Modes where
  ignoreCase : Bool := false
  unicode : Bool := true

def Modes.switched (change : Switches) (modes : Modes) : Modes where
  ignoreCase := change.apply .ignoreCase modes.ignoreCase
  unicode := change.apply .unicode modes.unicode

def Literal.isAscii (c : Literal) : Bool := c.char.toNat < 0x80

/-- Whether a literal can be matched: a character if case matters, and else if it is no byte beyond
ASCII. -/
def Modes.matchLiteral (modes : Modes) (c : Literal) : Bool :=
  if modes.unicode then !modes.ignoreCase else !c.isByte || c.isAscii

/-- Whether a literal can be a member of a set that is matched. A set of bytes has no character
beyond ASCII. -/
def Modes.matchMember (modes : Modes) (c : Literal) : Bool :=
  if modes.unicode then !modes.ignoreCase else c.isAscii

namespace CharSet

mutual

/-- Whether a set can be matched. A set of bytes is not inverted anywhere, for it would have the
bytes beyond ASCII. -/
def isMatchable (modes : Modes) : CharSet → Bool
  | .empty => true
  | .literal c => modes.matchMember c
  | .range first last => modes.matchMember first && modes.matchMember last
  | .named inverted _ => if modes.unicode then !modes.ignoreCase else !inverted
  | .shorthand inverted _ => !modes.unicode && !inverted
  | .bracketed inverted inside => (modes.unicode || !inverted) && inside.isMatchable modes
  | .union members => areMatchable modes members
  | .combined _ left right => left.isMatchable modes && right.isMatchable modes

def areMatchable (modes : Modes) : List CharSet → Bool
  | [] => true
  | first :: rest => first.isMatchable modes && areMatchable modes rest

end

end CharSet

/-- The modes behind a part, if a condition lets it be matched. -/
def Modes.provided (condition : Bool) (modes : Modes) : Option Modes :=
  if condition then some modes else none

mutual

/-- The modes behind a pattern, if it can be matched in those before it. What a group switches ends
with the group. -/
def modesBehind? (modes : Modes) : Pattern → Option Modes
  | .empty => some modes
  | .edge => some modes
  | .literal c => modes.provided (modes.matchLiteral c)
  | .anyChar => modes.provided modes.unicode
  | .wordEdge => modes.provided !modes.unicode
  | .shorthand inverted _ => modes.provided (!modes.unicode && !inverted)
  | .set inverted inside => modes.provided (CharSet.isMatchable modes (.bracketed inverted inside))
  | .switches change => some (modes.switched change)
  | .repeated body => body.modesBehind? modes
  | .group change body => (body.modesBehind? (modes.switched change)).map fun _ => modes
  | .alternatives branches => modesBehindAll? modes branches
  | .sequence parts => modesBehindAll? modes parts

/-- The modes behind some patterns, each of which starts in those behind the one before it. -/
def modesBehindAll? (modes : Modes) : List Pattern → Option Modes
  | [] => some modes
  | first :: rest => (first.modesBehind? modes).bind fun modes => modesBehindAll? modes rest

end

def maxDepth : Nat := 250

def isValid (text : List Char) : Bool :=
  (read? text).any fun pattern => pattern.depth ≤ maxDepth && (pattern.modesBehind? {}).isSome

end PeriodicJobs.Pattern
