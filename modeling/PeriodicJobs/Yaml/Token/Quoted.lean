import PeriodicJobs.Text.Basic
import PeriodicJobs.Text.Unicode
import PeriodicJobs.Yaml.Token.Plain

set_option autoImplicit false

/- Scalars in single and in double quotes. -/
namespace PeriodicJobs.Yaml

/-- Reads a scalar in single quotes, behind the opening quote. A doubled quote is a quote. -/
def singleQuoted (text : List Char) (gap : Gap) : Source → Option (List Char × Place)
  | [] => none
  | m :: rest =>
    if atDocumentMarker (m :: rest) then none
    else if isBreak m.char then singleQuoted text (gap.lineBreak m.char) rest
    else if isSpace m.char then singleQuoted text (gap.blank m.char) rest
    else if m.char = '\x27' then
      match rest with
      | [] => some (close text gap, ⟨false, []⟩)
      | next :: more =>
        if next.char = '\x27' then singleQuoted ('\x27' :: close text gap) .none more
        else some (close text gap, ⟨false, next :: more⟩)
    else singleQuoted (m.char :: close text gap) .none rest

def escapes : List (Char × Char) :=
  [('0', '\x00'), ('a', '\x07'), ('b', '\x08'), ('t', '\t'), ('\t', '\t'), ('n', '\n'),
    ('v', '\x0b'), ('f', '\x0c'), ('r', '\r'), ('e', '\x1b'), (' ', ' '), ('\x22', '\x22'),
    ('/', '/'), ('\\', '\\'), ('N', '\u0085'), ('_', '\u00a0'), ('L', '\u2028'), ('P', '\u2029')]

/-- How many hexadecimal digits follow an escape. -/
def hexLength? : Char → Option Nat
  | 'x' => some 2
  | 'u' => some 4
  | 'U' => some 8
  | _ => none

/-- What the next character in double quotes belongs to. -/
inductive Mode where
  | content
  | escape
  | hex (left code : Nat)

/-- Reads a scalar in double quotes, behind the opening quote. -/
def doubleQuoted (mode : Mode) (text : List Char) (gap : Gap) :
    Source → Option (List Char × Place)
  | [] => none
  | m :: rest =>
    match mode with
    | .hex left code =>
      match Text.hexDigit? m.char with
      | none => none
      | some digit =>
        if 1 < left then doubleQuoted (.hex (left - 1) (code * 16 + digit)) text gap rest
        else
          match Text.character? (code * 16 + digit) with
          | none => none
          | some c => doubleQuoted .content (c :: text) .none rest
    | .escape =>
      if isBreak m.char then doubleQuoted .content text (.joined []) rest
      else
        match hexLength? m.char, escapes.lookup m.char with
        | some left, _ => doubleQuoted (.hex left 0) text .none rest
        | none, some c => doubleQuoted .content (c :: text) .none rest
        | none, none => none
    | .content =>
      if atDocumentMarker (m :: rest) then none
      else if isBreak m.char then doubleQuoted .content text (gap.lineBreak m.char) rest
      else if isSpace m.char then doubleQuoted .content text (gap.blank m.char) rest
      else if m.char = '\x22' then some (close text gap, ⟨false, rest⟩)
      else if m.char = '\\' then doubleQuoted .escape (close text gap) .none rest
      else doubleQuoted .content (m.char :: close text gap) .none rest

end PeriodicJobs.Yaml
