/-!
# A place in a YAML text

A cursor holds the characters to come, with the line and the column of the
first of them. Blanks and line breaks are YAML's own.
-/

namespace Toolpath.Yaml

inductive Malformed
  | malformed
deriving DecidableEq, Repr

def isBreak (c : Char) : Bool :=
  c = '\n' || c = '\r' || c = '\u0085' || c = '\u2028' || c = '\u2029'

def isBlank (c : Char) : Bool := c = ' ' || c = '\t'

structure Cursor where
  rest : List Char
  line : Nat := 0
  column : Nat := 0
  index : Nat := 0
deriving Repr

namespace Cursor

def peek (c : Cursor) : Option Char := c.rest.head?

def atBreak (c : Cursor) : Bool := c.peek.any isBreak
def atBlank (c : Cursor) : Bool := c.peek.any isBlank
def atEnd (c : Cursor) : Bool := c.rest.isEmpty

def gapAt (c : Cursor) (n : Nat) : Bool :=
  match c.rest.drop n with
  | [] => true
  | x :: _ => isBlank x || isBreak x

def skip (c : Cursor) : Cursor :=
  { c with rest := c.rest.tail, column := c.column + 1, index := c.index + 1 }

def skipMany (c : Cursor) : Nat → Cursor
  | 0 => c
  | n + 1 => skipMany c.skip n

/-- Takes a line break, if there is one; it reads as a line feed unless it
separates lines or paragraphs. -/
def takeBreak (c : Cursor) : List Char × Cursor :=
  match c.rest with
  | '\r' :: '\n' :: t => (['\n'], ⟨t, c.line + 1, 0, c.index + 2⟩)
  | x :: t =>
    if x = '\u2028' || x = '\u2029' then ([x], ⟨t, c.line + 1, 0, c.index + 1⟩)
    else if isBreak x then (['\n'], ⟨t, c.line + 1, 0, c.index + 1⟩)
    else ([], c)
  | [] => ([], c)

def takeWhile (c : Cursor) (p : Char → Bool) : List Char × Cursor :=
  let front := c.rest.takeWhile p
  (front, { c with
    rest := c.rest.drop front.length
    column := c.column + front.length
    index := c.index + front.length })

def skipWhile (c : Cursor) (p : Char → Bool) : Cursor := (c.takeWhile p).2

def skipLine (c : Cursor) : Cursor := c.skipWhile fun x => !isBreak x

def atMarker (c : Cursor) : Bool :=
  c.column = 0 && (c.rest.take 3 = ['-', '-', '-'] || c.rest.take 3 = ['.', '.', '.']) && c.gapAt 3

end Cursor
end Toolpath.Yaml
