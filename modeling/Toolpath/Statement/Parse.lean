import Toolpath.Statement.Command
import Toolpath.Statement.Scan
import Toolpath.Text.Blank
import Toolpath.Text.Letter

/-!
# From statement text to command

A statement that begins with a letter is a major word, optionally a slash and
a parameter list; any other is a parameter list that continues the statement
before it. Each parameter is a string, a number or a minor word.
-/

namespace Toolpath

structure ParseError where
  line : Int64
  fragment : Text
  reason : Text
deriving DecidableEq

namespace ParseError

def snippet (e : ParseError) : Text :=
  "  --> line " ++ Text.ofInt e.line.toInt ++ "\n   |\n" ++
    (Text.ofInt e.line.toInt).padLeft 3 ++ " | " ++ e.fragment

def message (e : ParseError) : Text :=
  "parse error: " ++ e.reason ++ Text.newline :: e.snippet

end ParseError

inductive Parameter
  | minor (word : Text)
  | number (value : Float)
  | string (text : Text)
deriving DecidableEq

namespace Parameter

def isNumberMark (b : UInt8) : Bool :=
  Text.isDigit b || b = Text.point || b = 43 || b = 45 || b = 101 || b = 69

/-- A plain decimal number. Words for infinity and hexadecimal numbers are not numbers here. -/
def plainNumber? (t : Text) : Option Float :=
  if t.all isNumberMark && t.any Text.isDigit then (Number.read t).toOption else none

/-- A comma inside a number is a decimal point. -/
def number? (t : Text) : Option Float :=
  plainNumber? (t.map fun b => if b = Text.comma then Text.point else b)

def inner (t : Text) : Text := t.tail.dropLast

def isQuoted (t : Text) : Bool :=
  2 ≤ t.length && t.head?.any Scan.isQuoteMark && t.head? = t.getLast?

def isParenthesised (t : Text) : Bool :=
  2 < t.length && t.head? = some Text.openParen && t.getLast? = some Text.closeParen

def classifyBy (number? : Text → Option Float) (t : Text) : Parameter :=
  if isQuoted t then .string (inner t)
  else if isParenthesised t then .string (inner t).trim
  else match number? t with
    | some x => .number x
    | none => .minor t.lower

def listBy (number? : Text → Option Float) (t : Text) : List Parameter :=
  (((Scan.splitTop Text.comma t).map Text.trim).filter (!·.isEmpty)).map (classifyBy number?)

def minor? : Parameter → Option Text
  | minor w => some w
  | _ => none

def value? : Parameter → Option Float
  | number x => some x
  | _ => none

def string? : Parameter → Option Text
  | string t => some t
  | _ => none

end Parameter

namespace Command

def ofParameters (major : Text) (line : Int64) (ps : List Parameter) : Command :=
  { major, line
    minor := ps.filterMap Parameter.minor?
    numeric := ps.filterMap Parameter.value?
    strings := ps.filterMap Parameter.string? }

def withParameters (major params : Text) (line : Int64)
    (number? : Text → Option Float := Parameter.number?) : Command :=
  ofParameters major line (Parameter.listBy number? params)

/-- A major word without outer blanks and trailing commas, in lower case. -/
def normalMajor (t : Text) : Text := (t.trim.dropWhileBack (· = Text.comma)).trim.lower

def statement (major params text : Text) (line : Int64)
    (number? : Text → Option Float := Parameter.number?) : Except ParseError Command :=
  if normalMajor major = [] then .error ⟨line, text, "empty major word"⟩
  else .ok (withParameters (normalMajor major) params line number?)

def startsWithLetter : Text → Bool
  | [] => false
  | a :: t => isLetter (Text.firstSymbol a t).char

def parse (text : Text) (line : Int64) (number? : Text → Option Float := Parameter.number?) :
    Except ParseError Command :=
  if startsWithLetter text then
    let (major, params) := (Scan.cutTop? Text.slash text).getD (text, [])
    statement major params text line number?
  else .ok (withParameters continuationWord text line number?)

end Command
end Toolpath
