import Toolpath.Document.Yaml.Cursor

/-!
# Scalars of YAML

Plain text, quoted text and block text. A line break inside plain or quoted
text reads as a space, and further ones as line feeds; block text keeps its
lines or folds them.
-/

namespace Toolpath.Yaml

structure Gap where
  spaces : List Char := []
  first : List Char := []
  further : List Char := []
  broken : Bool := false

def Gap.text (g : Gap) : List Char :=
  if !g.broken then g.spaces
  else if g.first = ['\n'] then if g.further = [] then [' '] else g.further
  else g.first ++ g.further

/-- Takes blanks and line breaks. A tab may not indent a line by less than `indent`. -/
def takeGap (indent : Nat) (g : Gap) : (fuel : Nat) → Cursor → Except Malformed (Gap × Cursor)
  | 0, c => .ok (g, c)
  | fuel + 1, c =>
    match c.peek with
    | none => .ok (g, c)
    | some x =>
      if isBlank x then
        if g.broken then
          if x = '\t' && c.column < indent then .error .malformed
          else takeGap indent g fuel c.skip
        else takeGap indent { g with spaces := g.spaces ++ [x] } fuel c.skip
      else if isBreak x then
        let (b, c) := c.takeBreak
        if g.broken then takeGap indent { g with further := g.further ++ b } fuel c
        else takeGap indent { g with spaces := [], first := b, broken := true } fuel c
      else .ok (g, c)

def isFlowIndicator (c : Char) : Bool :=
  c = ',' || c = '?' || c = '[' || c = ']' || c = '\x7b' || c = '\x7d'

def takeWord (flow : Bool) (acc : List Char) : (fuel : Nat) → Cursor → List Char × Cursor
  | 0, c => (acc.reverse, c)
  | fuel + 1, c =>
    match c.peek with
    | none => (acc.reverse, c)
    | some x =>
      if c.gapAt 0 || (x = ':' && c.gapAt 1) || (flow && isFlowIndicator x) then (acc.reverse, c)
      else takeWord flow (x :: acc) fuel c.skip

/-- Plain text. The last answer is whether a line break followed it. -/
def plainOnto (flow : Bool) (indent : Nat) (acc : List Char) (gap : Gap) :
    (fuel : Nat) → Cursor → Except Malformed (List Char × Cursor × Bool)
  | 0, c => .ok (acc, c, gap.broken)
  | fuel + 1, c =>
    if c.atMarker || c.peek = some '#' then .ok (acc, c, gap.broken)
    else
      let (word, c) := takeWord flow [] (c.rest.length + 1) c
      let (acc, gap) := if word = [] then (acc, gap) else (acc ++ gap.text ++ word, {})
      if !(c.atBlank || c.atBreak) then .ok (acc, c, gap.broken)
      else
        match takeGap indent gap (c.rest.length + 1) c with
        | .error e => .error e
        | .ok (gap, c) =>
          if !flow && c.column < indent then .ok (acc, c, gap.broken)
          else plainOnto flow indent acc gap fuel c

def plain (flow : Bool) (indent : Nat) (c : Cursor) :
    Except Malformed (List Char × Cursor × Bool) :=
  plainOnto flow indent [] {} (c.rest.length + 1) c

def hexValue? (c : Char) : Option Nat :=
  if '0' ≤ c && c ≤ '9' then some (c.toNat - 48)
  else if 'a' ≤ c && c ≤ 'f' then some (c.toNat - 87)
  else if 'A' ≤ c && c ≤ 'F' then some (c.toNat - 55)
  else none

def hexNumber? (cs : List Char) : Option Nat :=
  cs.foldl (fun n c => do return (← n) * 16 + (← hexValue? c)) (some 0)

def escapeWidth (c : Char) : Nat :=
  if c = 'x' then 2 else if c = 'u' then 4 else if c = 'U' then 8 else 0

def simpleEscapes : List (Char × Char) :=
  [('0', '\x00'), ('a', '\x07'), ('b', '\x08'), ('t', '\t'), ('\t', '\t'), ('n', '\n'),
    ('v', '\x0b'), ('f', '\x0c'), ('r', '\r'), ('e', '\x1b'), (' ', ' '), ('"', '"'), ('/', '/'),
    ('\\', '\\'), ('N', '\u0085'), ('_', '\u00a0'), ('L', '\u2028'), ('P', '\u2029')]

def takeEscape (c : Cursor) : Except Malformed (Char × Cursor) :=
  match c.peek with
  | none => .error .malformed
  | some x =>
    let width := escapeWidth x
    if width = 0 then
      match simpleEscapes.lookup x with
      | some y => .ok (y, c.skip)
      | none => .error .malformed
    else
      let digits := c.skip.rest.take width
      if digits.length < width then .error .malformed
      else
        match hexNumber? digits with
        | none => .error .malformed
        | some n =>
          if (0xD800 ≤ n && n < 0xE000) || 0x10FFFF < n then .error .malformed
          else .ok (Char.ofNat n, c.skip.skipMany width)

def quotedOnto (quote : Char) (acc : List Char) :
    (fuel : Nat) → Cursor → Except Malformed (List Char × Cursor)
  | 0, _ => .error .malformed
  | fuel + 1, c =>
    if c.atMarker then .error .malformed
    else
      match c.rest with
      | [] => .error .malformed
      | x :: t =>
        if x = quote then
          if quote = '\'' && t.head? = some '\'' then
            quotedOnto quote ('\'' :: acc) fuel (c.skipMany 2)
          else .ok (acc.reverse, c.skip)
        else if isBlank x || isBreak x then
          fold acc {} fuel c
        else if quote = '"' && x = '\\' then
          if t.head?.any isBreak then fold acc { broken := true } fuel c.skip.takeBreak.2
          else
            match takeEscape c.skip with
            | .error e => .error e
            | .ok (y, c) => quotedOnto quote (y :: acc) fuel c
        else quotedOnto quote (x :: acc) fuel c.skip
where
  fold (acc : List Char) (gap : Gap) (fuel : Nat) (c : Cursor) :
      Except Malformed (List Char × Cursor) :=
    match takeGap 0 gap (c.rest.length + 1) c with
    | .error e => .error e
    | .ok (gap, c) =>
      match fuel with
      | 0 => .error .malformed
      | fuel + 1 => quotedOnto quote (gap.text.reverse ++ acc) fuel c

inductive Chomping
  | strip
  | clip
  | keep
deriving DecidableEq, Repr

structure BlockHeader where
  chomping : Chomping := .clip
  /-- The indentation that is given, or zero. -/
  increment : Nat := 0

def takeChomping (h : BlockHeader) (c : Cursor) : BlockHeader × Cursor :=
  match c.peek with
  | some '+' => ({ h with chomping := .keep }, c.skip)
  | some '-' => ({ h with chomping := .strip }, c.skip)
  | _ => (h, c)

def takeIncrement (h : BlockHeader) (c : Cursor) : Except Malformed (BlockHeader × Cursor) :=
  match c.peek with
  | some x =>
    if '1' ≤ x && x ≤ '9' then .ok ({ h with increment := x.toNat - 48 }, c.skip)
    else if x = '0' then .error .malformed
    else .ok (h, c)
  | none => .ok (h, c)

def takeBlockHeader (c : Cursor) : Except Malformed (BlockHeader × Cursor) := do
  let (h, c') := takeChomping {} c
  let (h, c') ←
    if h.chomping = .clip then do
      let (h, c') ← takeIncrement h c'
      pure (takeChomping h c')
    else takeIncrement h c'
  let c' := c'.skipWhile isBlank
  let c' := if c'.peek = some '#' then c'.skipLine else c'
  if c'.atEnd then return (h, c')
  else if c'.atBreak then return (h, c'.takeBreak.2)
  else throw .malformed

/-- Takes indentation and empty lines. With no indentation given, it is found here. -/
def takeIndent (indent deepest : Nat) (acc : List Char) :
    (fuel : Nat) → Cursor → Except Malformed (Nat × List Char × Cursor)
  | 0, c => .ok (deepest, acc, c)
  | fuel + 1, c =>
    let spaces := c.rest.takeWhile (· = ' ')
    let n := if indent = 0 then spaces.length else min spaces.length (indent - c.column)
    let c := c.skipMany n
    let deepest := max deepest c.column
    if (indent = 0 || c.column < indent) && c.peek = some '\t' then .error .malformed
    else if c.atBreak then
      let (b, c) := c.takeBreak
      takeIndent indent deepest (acc ++ b) fuel c
    else .ok (deepest, acc, c)

structure BlockLines where
  text : List Char := []
  /-- The line break behind the last line. -/
  ending : List Char := []
  /-- Empty lines behind it. -/
  empty : List Char := []
  /-- Whether the last line began with a blank. -/
  blankLed : Bool := false

def blockLines (literal : Bool) (indent : Nat) (b : BlockLines) :
    (fuel : Nat) → Cursor → Except Malformed (BlockLines × Cursor)
  | 0, c => .ok (b, c)
  | fuel + 1, c =>
    if c.column ≠ indent || c.atEnd then .ok (b, c)
    else
      let blankLed := c.atBlank
      let joined :=
        if !literal && !b.blankLed && !blankLed && b.ending = ['\n'] then
          if b.empty = [] then [' '] else []
        else b.ending
      let (line, c) := c.takeWhile fun x => !isBreak x
      let (ending, c) := c.takeBreak
      match takeIndent indent 0 [] (c.rest.length + 1) c with
      | .error e => .error e
      | .ok (_, empty, c) =>
        blockLines literal indent
          { text := b.text ++ joined ++ b.empty ++ line, ending, empty, blankLed } fuel c

/-- Block text behind its indicator, inside a collection indented by `parent`. -/
def block (literal : Bool) (parent : Int) (c : Cursor) : Except Malformed (List Char × Cursor) := do
  let (h, c) ← takeBlockHeader c
  let given : Nat :=
    if h.increment = 0 then 0 else if 0 ≤ parent then parent.toNat + h.increment else h.increment
  let (deepest, empty, c) ← takeIndent given 0 [] (c.rest.length + 1) c
  let indent : Nat := if given = 0 then max deepest (max (parent + 1).toNat 1) else given
  let (b, c) ← blockLines literal indent { empty } (c.rest.length + 1) c
  let text := if h.chomping = .strip then b.text else b.text ++ b.ending
  return (if h.chomping = .keep then text ++ b.empty else text, c)

end Toolpath.Yaml
