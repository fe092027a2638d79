import PeriodicJobs.Yaml.Source

set_option autoImplicit false

/- Plain scalars, and the gaps between words that all scalars have.

The texts under way are kept with the last character first. -/
namespace PeriodicJobs.Yaml

/-- What stands between two words: blanks on one line, line breaks, or line breaks of which the
first is escaped. -/
inductive Gap where
  | blanks (spaces : List Char)
  | lines (breaks : List Char)
  | joined (breaks : List Char)
deriving DecidableEq

namespace Gap

def none : Gap := .blanks []

/-- The gap with one more blank. Blanks beside line breaks do not count. -/
def blank (c : Char) : Gap → Gap
  | .blanks spaces => .blanks (spaces ++ [c])
  | gap => gap

def lineBreak (c : Char) : Gap → Gap
  | .blanks _ => .lines [c]
  | .lines breaks => .lines (breaks ++ [c])
  | .joined breaks => .joined (breaks ++ [c])

def crossesLine : Gap → Bool
  | .blanks _ => false
  | _ => true

/-- What a gap stands for: a single line feed is a space, and before others one is left out. -/
def text : Gap → List Char
  | .blanks spaces => spaces
  | .lines ['\n'] => [' ']
  | .lines ('\n' :: more) => more
  | .lines breaks => breaks
  | .joined breaks => breaks

end Gap

def close (text : List Char) (gap : Gap) : List Char := gap.text.reverse ++ text

/-- The characters that cannot start a plain scalar, but for three that may if nothing but a blank
would make them an indicator. -/
def indicators : List Char := "-?:,[]\x7b\x7d#&*!|>\x27\x22%@\x60".toList

def startsPlain (flow : Bool) : Source → Bool
  | [] => false
  | m :: rest =>
    if isSpace m.char || isBreak m.char then false
    else if m.char = '-' then !atGap rest
    else if m.char = '?' ∨ m.char = ':' then !flow && !atGap rest
    else !indicators.contains m.char

def flowIndicators : List Char := ",[]\x7b\x7d".toList

/-- Whether a plain scalar ends before a character that is neither a blank nor a line break. -/
def endsPlain (flow : Bool) (indent : Nat) (gap : Gap) (m : Mark) (rest : Source) : Bool :=
  (gap != .none && m.char == '#') ||
    (gap.crossesLine && ((!flow && m.column < indent) || atDocumentMarker (m :: rest))) ||
    (m.char == ':' && atGap rest) || (flow && flowIndicators.contains m.char)

/-- Whether a colon stands where flow context allows none. -/
def misplacedColon (flow : Bool) (m : Mark) : Source → Bool
  | [] => false
  | next :: _ =>
    flow && m.char == ':' && (next.char == '?' || flowIndicators.contains next.char)

/-- Reads a plain scalar. In block context it ends at the first line that is indented less. -/
def plain (flow : Bool) (indent : Nat) (text : List Char) (gap : Gap) :
    Source → Option (List Char × Place)
  | [] => some (text, ⟨gap.crossesLine, []⟩)
  | m :: rest =>
    if isBreak m.char then plain flow indent text (gap.lineBreak m.char) rest
    else if isSpace m.char then
      if gap.crossesLine && m.char == '\t' && m.column < indent then none
      else plain flow indent text (gap.blank m.char) rest
    else if misplacedColon flow m rest then none
    else if endsPlain flow indent gap m rest then some (text, ⟨gap.crossesLine, m :: rest⟩)
    else plain flow indent (m.char :: close text gap) .none rest

end PeriodicJobs.Yaml
