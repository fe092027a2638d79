set_option autoImplicit false

/- The text of a YAML document as characters with their lines and columns. -/
namespace PeriodicJobs.Yaml

/-- A character and where it stands; lines and columns count from zero. -/
structure Mark where
  char : Char
  line : Nat
  column : Nat

abbrev Source : Type := List Mark

def isAllowed (c : Char) : Bool :=
  let n := c.toNat
  n == 0x09 || n == 0x0A || n == 0x0D || (0x20 ≤ n && n ≤ 0x7E) || n == 0x85 ||
    (0xA0 ≤ n && n ≤ 0xD7FF) || (0xE000 ≤ n && n ≤ 0xFFFD) || 0x10000 ≤ n

/-- Line breaks once they are unified: a line feed, and the separators of lines and paragraphs. -/
def isBreak (c : Char) : Bool := c == '\n' || c == '\u2028' || c == '\u2029'

def isSpace (c : Char) : Bool := c == ' ' || c == '\t'

/-- The mark of the byte order, which may start any line and takes a column of it. -/
def orderMark : Char := '\uFEFF'

/-- Carriage returns and next-line characters become line feeds; a carriage return and a line feed
are one line break. -/
def unifyBreaks : List Char → List Char
  | '\r' :: '\n' :: rest => '\n' :: unifyBreaks rest
  | c :: rest => (if c == '\r' || c == '\u0085' then '\n' else c) :: unifyBreaks rest
  | [] => []

def marks (line column : Nat) : List Char → Source
  | [] => []
  | c :: rest =>
    ⟨c, line, column⟩ :: if isBreak c then marks (line + 1) 0 rest else marks line (column + 1) rest

def source? (text : List Char) : Option Source :=
  if text.all isAllowed then some (marks 0 0 (unifyBreaks text)) else none

/-- Whether a token before this point ends here: at a blank, a line break or the end. -/
def atGap : Source → Bool
  | [] => true
  | m :: _ => isSpace m.char || isBreak m.char

/-- Whether a line starts with three times a character and nothing adjoining. -/
def atMarker (fill : Char) : Source → Bool
  | a :: b :: c :: rest =>
    a.column == 0 && a.char == fill && b.char == fill && c.char == fill && atGap rest
  | _ => false

/-- Whether a line starts with the marker of a document's start or end. -/
def atDocumentMarker (source : Source) : Bool := atMarker '-' source || atMarker '.' source

/-- Where reading goes on. The place is fresh if a key without a question mark may start there. -/
structure Place where
  fresh : Bool
  rest : Source

/-- Goes on to the next token, over blanks, line breaks and comments. A line break makes a place
fresh in block context. Tabs do not indent, so none is passed at a fresh place of block context. -/
def skip (flow comment fresh : Bool) : Source → Place
  | [] => ⟨fresh, []⟩
  | m :: rest =>
    if isBreak m.char then skip flow false (fresh || !flow) rest
    else if comment then skip flow true fresh rest
    else if m.char = orderMark ∧ m.column = 0 then skip flow false fresh rest
    else if m.char = ' ' ∨ m.char = '\t' ∧ (flow ∨ ¬ fresh) then skip flow false fresh rest
    else if m.char = '#' then skip flow true fresh rest
    else ⟨fresh, m :: rest⟩

def Place.next (flow : Bool) (place : Place) : Place := skip flow false place.fresh place.rest

end PeriodicJobs.Yaml
