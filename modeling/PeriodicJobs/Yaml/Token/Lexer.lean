import PeriodicJobs.Yaml.Token.Block
import PeriodicJobs.Yaml.Token.Directive
import PeriodicJobs.Yaml.Token.Quoted

set_option autoImplicit false

/- The tokens of a text.

What starts a key shows only at the colon behind it. So the tokens from a possible start of a key on
are held back until the colon comes or can come no more. Sequences have no tokens, nor have block
mappings in block mappings and braces in braces. -/
namespace PeriodicJobs.Yaml

/-- How many characters may stand between the start of a key and its colon. -/
def maxKeyLength : Nat := 1024

/-- Where a key may have started. What stands at the column of a block mapping's keys has to start
one. -/
structure KeyStart where
  line : Nat
  column : Nat
  required : Bool

/-- Whether a key that started here can still have its colon at a mark. -/
def KeyStart.isOpen (start : KeyStart) (m : Mark) : Bool :=
  m.line == start.line && m.column ≤ start.column + maxKeyLength

/-- A text under way: the place that is reached, whether it is inside braces, the column of the keys
of the block mapping that it is in, and the tokens so far, the last one first. -/
structure Lexer where
  place : Place
  flow : Bool := false
  column : Option Nat := none
  key : Option KeyStart := none
  held : List Token := []
  passed : List Token := []

namespace Lexer

/-- The least column of what belongs to the block mapping. -/
def floor (lexer : Lexer) : Nat :=
  match lexer.column with
  | none => 0
  | some column => column + 1

def emit (token : Token) (lexer : Lexer) : Lexer :=
  match lexer.key with
  | some _ => { lexer with held := token :: lexer.held }
  | none => { lexer with passed := token :: lexer.passed }

def goOn (fresh : Bool) (rest : Source) (lexer : Lexer) : Lexer :=
  { lexer with place := ⟨fresh, rest⟩ }

/-- Gives up a key that may have started. -/
def release (lexer : Lexer) : Option Lexer :=
  if lexer.key.any (·.required) then none
  else some { lexer with key := none, held := [], passed := lexer.held ++ lexer.passed }

/-- Gives up a key that cannot have its colon any more. -/
def expire (m : Mark) (lexer : Lexer) : Option Lexer :=
  if lexer.key.all (·.isOpen m) then some lexer else lexer.release

def startKey (m : Mark) (lexer : Lexer) : Option Lexer :=
  if lexer.place.fresh then do
    let lexer ← lexer.release
    let required := !lexer.flow && lexer.column == some m.column
    return { lexer with key := some ⟨m.line, m.column, required⟩ }
  else some lexer

/-- Starts the block mapping at the column of its first key. A key at a later column would start a
mapping in it. -/
def openMapping (column : Nat) (lexer : Lexer) : Option Lexer :=
  if lexer.flow then some lexer
  else
    match lexer.column with
    | none => some ({ lexer with column := some column }.emit .mappingStart)
    | some keys => if column ≤ keys then some lexer else none

/-- Ends the block mapping if its keys satisfy a condition on their column. -/
def closeMapping (ends : Nat → Bool) (lexer : Lexer) : Lexer :=
  if !lexer.flow && lexer.column.any ends then { lexer with column := none }.emit .mappingEnd
  else lexer

def passDirective (rest : Source) (lexer : Lexer) : Option Lexer := do
  let lexer ← lexer.release
  let token ← directive? ((rest.takeWhile fun m : Mark => !isBreak m.char).map (·.char))
  let behind := (rest.dropWhile fun m : Mark => !isBreak m.char).drop 1
  return ((lexer.closeMapping fun _ => true).emit token).goOn false behind

def passMarker (token : Token) (rest : Source) (lexer : Lexer) : Option Lexer := do
  let lexer ← lexer.release
  return ((lexer.closeMapping fun _ => true).emit token).goOn false (rest.drop 2)

def passFlow (token : Token) (flow fresh : Bool) (rest : Source) (lexer : Lexer) : Option Lexer := do
  let lexer ← lexer.release
  return { lexer.emit token with flow, place := ⟨fresh, rest⟩ }

def passQuestion (m : Mark) (rest : Source) (lexer : Lexer) : Option Lexer :=
  if lexer.flow ∨ lexer.place.fresh then do
    let lexer ← (← lexer.release).openMapping m.column
    return (lexer.emit .key).goOn (!lexer.flow) rest
  else none

/-- Passes a colon. The key before it is what is held back, or has been announced. -/
def passColon (m : Mark) (rest : Source) (lexer : Lexer) : Option Lexer :=
  match lexer.key with
  | some start => do
    let opened ← { lexer with key := none, held := [] }.openMapping start.column
    let announced := opened.emit .key
    return ({ announced with passed := lexer.held ++ announced.passed }.emit .value).goOn false rest
  | none =>
    if lexer.flow ∨ lexer.place.fresh then do
      let lexer ← lexer.openMapping m.column
      return (lexer.emit .value).goOn (!lexer.flow) rest
    else none

/-- Passes a block scalar. It starts no key. -/
def passBlock (m : Mark) (rest : Source) (lexer : Lexer) : Option Lexer := do
  let lexer ← lexer.release
  let (text, place) ← blockScalar (m.char == '>') lexer.floor rest
  let style := if m.char = '>' then Style.folded else Style.literal
  return { lexer.emit (.scalar style (String.ofList text.reverse)) with place }

def anchorName? (source : Source) : Option (String × Source) :=
  let name := (source.takeWhile fun m : Mark => isNameChar m.char).map (·.char)
  let rest := source.dropWhile fun m : Mark => isNameChar m.char
  let closed := match rest with
    | [] => true
    | m :: _ => atGap rest || "?:,]\x7d%@\x60".toList.contains m.char
  if name.isEmpty || !closed then none else some (String.ofList name, rest)

/-- Reads a tag that is followed by a gap, or in flow context by a comma. -/
def tag? (flow : Bool) (source : Source) : Option (WrittenTag × Source) := do
  let word := (source.takeWhile fun m : Mark => !atGap [m]).map (·.char)
  let (tag, after) ← writtenTag? word
  if after.isEmpty ∨ flow ∧ after.head? = some ',' then
    return (tag, source.drop (word.length - after.length))
  else none

def keyToken? (m : Mark) (rest : Source) (lexer : Lexer) : Option (Token × Place) :=
  let quoted := fun (text, place) => (Token.scalar .quoted (String.ofList (List.reverse text)), place)
  if m.char = '&' then (anchorName? rest).map fun (name, rest) => (.anchor name, ⟨false, rest⟩)
  else if m.char = '*' then
    (anchorName? rest).map fun (name, rest) => (.reference name, ⟨false, rest⟩)
  else if m.char = '!' then (tag? lexer.flow rest).map fun (tag, rest) => (.tag tag, ⟨false, rest⟩)
  else if m.char = '\x22' then (doubleQuoted .content [] .none rest).map quoted
  else if m.char = '\x27' then (singleQuoted [] .none rest).map quoted
  else if startsPlain lexer.flow (m :: rest) then
    (plain lexer.flow lexer.floor [] .none (m :: rest)).map fun (text, place) =>
      (.scalar .plain (String.ofList text.reverse), place)
  else none

def passKeyToken (m : Mark) (rest : Source) (lexer : Lexer) : Option Lexer := do
  let lexer ← lexer.startKey m
  let (token, place) ← lexer.keyToken? m rest
  return { lexer.emit token with place }

def step (m : Mark) (rest : Source) (lexer : Lexer) : Option Lexer :=
  let alone := lexer.flow || atGap rest
  if m.char = '%' ∧ m.column = 0 then lexer.passDirective rest
  else if atMarker '-' (m :: rest) then lexer.passMarker .documentStart rest
  else if atMarker '.' (m :: rest) then lexer.passMarker .documentEnd rest
  else if m.char = '\x7b' ∧ ¬ lexer.flow then lexer.passFlow .braceOpen true true rest
  else if m.char = '\x7d' ∧ lexer.flow then lexer.passFlow .braceClose false false rest
  else if m.char = ',' ∧ lexer.flow then lexer.passFlow .comma true true rest
  else if m.char = '?' ∧ alone then lexer.passQuestion m rest
  else if m.char = ':' ∧ alone then lexer.passColon m rest
  else if (m.char = '|' ∨ m.char = '>') ∧ ¬ lexer.flow then lexer.passBlock m rest
  else lexer.passKeyToken m rest

def finish (lexer : Lexer) : Option (List Token) :=
  lexer.release.map fun lexer => (lexer.closeMapping fun _ => true).passed.reverse

/-- Passes the remaining tokens, at most `limit` of them. -/
def run : Nat → Lexer → Option (List Token)
  | 0, _ => none
  | limit + 1, lexer =>
    let place := lexer.place.next lexer.flow
    match place.rest with
    | [] => lexer.finish
    | m :: rest => do
      let lexer ← { lexer with place }.expire m
      let lexer ← (lexer.closeMapping (m.column < ·)).step m rest
      run limit lexer

end Lexer

/-- The tokens of a text. Every token takes a character of it. -/
def tokens? (text : List Char) : Option (List Token) := do
  let source ← source? text
  Lexer.run (source.length + 1) { place := ⟨true, source⟩ }

end PeriodicJobs.Yaml
