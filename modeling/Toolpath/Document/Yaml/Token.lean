import Toolpath.Document.Yaml.Scalar

/-!
# Tokens of YAML

A text is cut into tokens in which indentation has become brackets: the
beginning and the end of a block are tokens of their own. That a scalar was a
key shows only at the colon behind it; the tokens that say so are then put in
front of it. A key without a question mark stands on one line.
-/

namespace Toolpath.Yaml

inductive Token
  | streamEnd
  /-- A version; only 1.1 is known. -/
  | version (known : Bool)
  | tagDirective (handle uri : String)
  | documentStart
  | documentEnd
  | blockSequence
  | blockMapping
  | blockEnd
  | flowSequence
  | flowSequenceEnd
  | flowMapping
  | flowMappingEnd
  | blockEntry
  | flowEntry
  | key
  | value
  | alias (name : String)
  | anchor (name : String)
  | tag (handle suffix : String)
  | scalar (text : String) (plain : Bool)
deriving DecidableEq, Repr

structure Candidate where
  /-- Whether nothing but a key can stand here. -/
  required : Bool
  place : Nat
  line : Nat
  column : Nat
  index : Nat

def Candidate.alive (c : Candidate) (now : Cursor) : Bool :=
  !(c.line < now.line || c.index + 1024 < now.index)

structure Scanner where
  cursor : Cursor
  tokens : List Token := []
  indent : Int := -1
  indents : List Int := []
  /-- The candidate of each open bracket, and that of the block last. -/
  candidates : List (Option Candidate) := [none]
  keyAllowed : Bool := true
  ended : Bool := false

namespace Scanner

abbrev Step := Except Malformed Scanner

def inFlow (s : Scanner) : Bool := 1 < s.candidates.length

def push (s : Scanner) (t : Token) : Scanner := { s with tokens := t :: s.tokens }

def insertAt (s : Scanner) (place : Nat) (t : Token) : Scanner :=
  let later := s.tokens.length - place
  { s with tokens := s.tokens.take later ++ t :: s.tokens.drop later }

def allowKey (s : Scanner) (b : Bool) : Scanner := { s with keyAllowed := b }

def skip (s : Scanner) (n : Nat := 1) : Scanner := { s with cursor := s.cursor.skipMany n }

def unroll (s : Scanner) (column : Int) : (fuel : Nat) → Scanner
  | 0 => s
  | fuel + 1 =>
    if s.inFlow || s.indent ≤ column then s
    else
      unroll { s.push .blockEnd with
        indent := s.indents.headD (-1), indents := s.indents.tail } column fuel

def unrollTo (s : Scanner) (column : Int) : Scanner := s.unroll column (s.indents.length + 1)

def roll (s : Scanner) (column : Int) (t : Token) (place : Nat) : Scanner :=
  if s.inFlow || column ≤ s.indent then s
  else { s.insertAt place t with indent := column, indents := s.indent :: s.indents }

def rollHere (s : Scanner) (t : Token) : Scanner := s.roll s.cursor.column t s.tokens.length

def dropCandidate (s : Scanner) : Step :=
  match s.candidates with
  | some c :: rest =>
    if c.required then .error .malformed else .ok { s with candidates := none :: rest }
  | _ => .ok s

def saveCandidate (s : Scanner) : Step :=
  if s.keyAllowed then
    let c : Candidate :=
      { required := !s.inFlow && s.indent = s.cursor.column, place := s.tokens.length
        line := s.cursor.line, column := s.cursor.column, index := s.cursor.index }
    match s.dropCandidate with
    | .error e => .error e
    | .ok s => .ok { s with candidates := some c :: s.candidates.tail }
  else .ok s

def dropStale (s : Scanner) : Step :=
  if s.candidates.any fun c => c.any fun c => c.required && !c.alive s.cursor then
    .error .malformed
  else .ok { s with candidates := s.candidates.map fun c => c.filter (·.alive s.cursor) }

def skipGaps (s : Scanner) : (fuel : Nat) → Scanner
  | 0 => s
  | fuel + 1 =>
    match s.cursor.peek with
    | none => s
    | some x =>
      if s.cursor.column = 0 && x = '\ufeff' then s.skip.skipGaps fuel
      else if x = ' ' || (x = '\t' && (s.inFlow || !s.keyAllowed)) then s.skip.skipGaps fuel
      else if x = '#' then skipGaps { s with cursor := s.cursor.skipLine } fuel
      else if isBreak x then
        skipGaps { s with
          cursor := s.cursor.takeBreak.2, keyAllowed := s.keyAllowed || !s.inFlow } fuel
      else s

def isNameChar (c : Char) : Bool := c.isAlphanum || c = '_' || c = '-'

def isUriChar (c : Char) : Bool :=
  c.isAlphanum || "_-;/?:@&=+$,.!~*'()[]%".toList.contains c

def fetchName (s : Scanner) (make : String → Token) : Step :=
  match s.saveCandidate with
  | .error e => .error e
  | .ok s =>
    let (name, c) := (s.cursor.skip).takeWhile isNameChar
    let ends := c.gapAt 0 || c.peek.any fun x => "?:,]\x7d%@`".toList.contains x
    if name = [] || !ends then .error .malformed
    else .ok ({ s with cursor := c, keyAllowed := false }.push (make (String.ofList name)))

def takeTag (c : Cursor) : Except Malformed (String × String × Cursor) :=
  match c.rest with
  | '!' :: '<' :: _ =>
    let (uri, c) := (c.skipMany 2).takeWhile isUriChar
    if uri = [] || c.peek ≠ some '>' then .error .malformed
    else .ok ("", String.ofList uri, c.skip)
  | _ =>
    let (name, c') := c.skip.takeWhile isNameChar
    if c'.peek = some '!' then
      let (suffix, c') := c'.skip.takeWhile isUriChar
      if suffix = [] then .error .malformed
      else .ok ("!" ++ String.ofList name ++ "!", String.ofList suffix, c')
    else
      let (suffix, c') := c.skip.takeWhile isUriChar
      if suffix = [] then .ok ("", "!", c') else .ok ("!", String.ofList suffix, c')

def fetchTag (s : Scanner) : Step :=
  match s.saveCandidate with
  | .error e => .error e
  | .ok s =>
    match takeTag s.cursor with
    | .error e => .error e
    | .ok (handle, suffix, c) =>
      if c.gapAt 0 then
        .ok ({ s with cursor := c, keyAllowed := false }.push (.tag handle suffix))
      else .error .malformed

def fetchQuoted (s : Scanner) (quote : Char) : Step :=
  match s.saveCandidate with
  | .error e => .error e
  | .ok s =>
    match quotedOnto quote [] (2 * s.cursor.rest.length + 2) s.cursor.skip with
    | .error e => .error e
    | .ok (text, c) =>
      .ok ({ s with cursor := c, keyAllowed := false }.push (.scalar (String.ofList text) false))

def fetchPlain (s : Scanner) : Step :=
  match s.saveCandidate with
  | .error e => .error e
  | .ok s =>
    match plain s.inFlow (s.indent + 1).toNat s.cursor with
    | .error e => .error e
    | .ok (text, c, broken) =>
      .ok ({ s with cursor := c, keyAllowed := broken }.push (.scalar (String.ofList text) true))

def fetchBlock (s : Scanner) (literal : Bool) : Step :=
  match s.dropCandidate with
  | .error e => .error e
  | .ok s =>
    match block literal s.indent s.cursor.skip with
    | .error e => .error e
    | .ok (text, c) =>
      .ok ({ s with cursor := c, keyAllowed := true }.push (.scalar (String.ofList text) false))

def endDirective (s : Scanner) (c : Cursor) (t : Token) : Step :=
  let c := c.skipWhile isBlank
  let c := if c.peek = some '#' then c.skipLine else c
  if c.atEnd then .ok ({ s with cursor := c }.push t)
  else if c.atBreak then .ok ({ s with cursor := c.takeBreak.2 }.push t)
  else .error .malformed

def fetchDirective (s : Scanner) : Step :=
  match (s.unrollTo (-1)).dropCandidate with
  | .error e => .error e
  | .ok s =>
    let s := s.allowKey false
    let (name, c) := s.cursor.skip.takeWhile isNameChar
    if !c.gapAt 0 then .error .malformed
    else
      let c := c.skipWhile isBlank
      if String.ofList name = "YAML" then
        let (number, c) := c.takeWhile fun x => x.isDigit || x = '.'
        endDirective s c (.version (String.ofList number = "1.1"))
      else if String.ofList name = "TAG" then
        let (handle, c) := c.takeWhile fun x => isNameChar x || x = '!'
        let (uri, c) := (c.skipWhile isBlank).takeWhile isUriChar
        if handle.head? ≠ some '!' || handle.getLast? ≠ some '!' || uri = [] then .error .malformed
        else endDirective s c (.tagDirective (String.ofList handle) (String.ofList uri))
      else .error .malformed

def fetchMarker (s : Scanner) (t : Token) : Step :=
  match (s.unrollTo (-1)).dropCandidate with
  | .error e => .error e
  | .ok s => .ok (((s.allowKey false).skip 3).push t)

def openFlow (s : Scanner) (t : Token) : Step :=
  match s.saveCandidate with
  | .error e => .error e
  | .ok s => .ok ({ s.skip with candidates := none :: s.candidates, keyAllowed := true }.push t)

def closeFlow (s : Scanner) (t : Token) : Step :=
  match s.dropCandidate with
  | .error e => .error e
  | .ok s =>
    let candidates := if s.inFlow then s.candidates.tail else s.candidates
    .ok ({ s.skip with candidates, keyAllowed := false }.push t)

def fetchFlowEntry (s : Scanner) : Step :=
  match s.dropCandidate with
  | .error e => .error e
  | .ok s => .ok ((s.skip.allowKey true).push .flowEntry)

def fetchBlockIndicator (s : Scanner) (opening t : Token) (keyAfter : Bool) : Step :=
  if !s.inFlow && !s.keyAllowed then .error .malformed
  else
    match (s.rollHere opening).dropCandidate with
    | .error e => .error e
    | .ok s => .ok ((s.skip.allowKey keyAfter).push t)

def fetchValue (s : Scanner) : Step :=
  match s.candidates with
  | some c :: rest =>
    let s := s.insertAt c.place .key
    let s := s.roll c.column .blockMapping c.place
    .ok ({ s.skip with candidates := none :: rest, keyAllowed := false }.push .value)
  | _ =>
    if !s.inFlow && !s.keyAllowed then .error .malformed
    else
      let s := s.rollHere .blockMapping
      .ok ((s.skip.allowKey !s.inFlow).push .value)

def finish (s : Scanner) : Step :=
  match (s.unrollTo (-1)).dropCandidate with
  | .error e => .error e
  | .ok s => .ok { s.push .streamEnd with ended := true }

def startsPlain (s : Scanner) (x : Char) : Bool :=
  (!isBlank x && !"-?:,[]\x7b\x7d#&*!|>'\"%@`".toList.contains x) ||
    (x = '-' && !(s.cursor.skip.atBlank)) ||
    (!s.inFlow && (x = '?' || x = ':') && !s.cursor.gapAt 1)

def fetchAt (s : Scanner) (x : Char) : Step :=
  if s.cursor.column = 0 && x = '%' then s.fetchDirective
  else if s.cursor.atMarker then s.fetchMarker (if x = '-' then .documentStart else .documentEnd)
  else if x = '[' then s.openFlow .flowSequence
  else if x = '\x7b' then s.openFlow .flowMapping
  else if x = ']' then s.closeFlow .flowSequenceEnd
  else if x = '\x7d' then s.closeFlow .flowMappingEnd
  else if x = ',' then s.fetchFlowEntry
  else if x = '-' && s.cursor.gapAt 1 then s.fetchBlockIndicator .blockSequence .blockEntry true
  else if x = '?' && (s.inFlow || s.cursor.gapAt 1) then
    s.fetchBlockIndicator .blockMapping .key !s.inFlow
  else if x = ':' && (s.inFlow || s.cursor.gapAt 1) then s.fetchValue
  else if x = '*' then s.fetchName .alias
  else if x = '&' then s.fetchName .anchor
  else if x = '!' then s.fetchTag
  else if x = '|' && !s.inFlow then s.fetchBlock true
  else if x = '>' && !s.inFlow then s.fetchBlock false
  else if x = '\'' || x = '"' then s.fetchQuoted x
  else if s.startsPlain x then s.fetchPlain
  else .error .malformed

def fetch (s : Scanner) : Step :=
  match (s.skipGaps (s.cursor.rest.length + 1)).dropStale with
  | .error e => .error e
  | .ok s =>
    let s := s.unrollTo s.cursor.column
    match s.cursor.peek with
    | none => s.finish
    | some x => s.fetchAt x

/-- All tokens, up to the end or to a fault. Two tokens in front of a fault
are lost with it, as the reader looks so far ahead. -/
def run (s : Scanner) : (fuel : Nat) → List Token
  | 0 => s.tokens.reverse
  | fuel + 1 =>
    if s.ended then s.tokens.reverse
    else
      match s.fetch with
      | .error _ => (s.tokens.drop 2).reverse
      | .ok s => s.run fuel

end Scanner

def tokens (text : List Char) : List Token :=
  Scanner.run { cursor := { rest := text } } (2 * text.length + 2)

end Toolpath.Yaml
