import Toolpath.Text.Basic

/-!
# Quotes, parentheses and comments

What a statement is cut at only counts outside quotes, and for separators
also outside parentheses. A quote mark opens a span that only the same mark
closes. The parenthesis counter may run below zero; only at zero is a
separator at top level.
-/

namespace Toolpath

inductive Quotes
  | closed
  | single
  | double
deriving DecidableEq, Repr

namespace Quotes

def step (q : Quotes) (b : UInt8) : Quotes :=
  match q with
  | closed =>
    if b = Text.singleQuote then single else if b = Text.doubleQuote then double else closed
  | single => if b = Text.singleQuote then closed else single
  | double => if b = Text.doubleQuote then closed else double

def isOpen (q : Quotes) : Bool := q != closed

def after (q : Quotes) (t : Text) : Quotes := t.foldl step q

end Quotes

namespace Scan

def isQuoteMark (b : UInt8) : Bool := b = Text.singleQuote || b = Text.doubleQuote

def insideQuotes (t : Text) (i : Nat) : Bool := (Quotes.closed.after (t.take i)).isOpen

/-- What stands before the first `$$` outside quotes, if there is one. -/
def beforeComment? (q : Quotes) : Text → Option Text
  | [] => none
  | b :: t =>
    if !q.isOpen && b = Text.dollar && t.head? = some Text.dollar then some []
    else (beforeComment? (q.step b) t).map (b :: ·)

structure Cursor where
  quotes : Quotes := .closed
  depth : Int := 0
deriving DecidableEq, Repr

namespace Cursor

def reads (s : Cursor) (b : UInt8) : Bool := !(s.quotes.step b).isOpen && !isQuoteMark b

def step (s : Cursor) (b : UInt8) : Cursor :=
  { quotes := s.quotes.step b
    depth :=
      if !s.reads b then s.depth
      else if b = Text.openParen then s.depth + 1
      else if b = Text.closeParen then s.depth - 1
      else s.depth }

def cuts (s : Cursor) (sep b : UInt8) : Bool := s.reads b && b = sep && s.depth = 0

end Cursor

def partsFrom (sep : UInt8) (s : Cursor) : Text → Text × List Text
  | [] => ([], [])
  | b :: t =>
    let (part, parts) := partsFrom sep (s.step b) t
    if s.cuts sep b then ([], part :: parts) else (b :: part, parts)

def splitTop (sep : UInt8) (t : Text) : List Text :=
  let (part, parts) := partsFrom sep {} t
  part :: parts

def cutTopFrom? (sep : UInt8) (s : Cursor) : Text → Option (Text × Text)
  | [] => none
  | b :: t =>
    if s.cuts sep b then some ([], t)
    else (cutTopFrom? sep (s.step b) t).map fun p => (b :: p.1, p.2)

def cutTop? (sep : UInt8) (t : Text) : Option (Text × Text) := cutTopFrom? sep {} t

end Scan
end Toolpath
