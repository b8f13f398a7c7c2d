import Toolpath.Source

/-!
# Listing commands

A command as one line of text with its line number, or as one object of a
data format. Empty lists are left out of the object.
-/

namespace Toolpath.Dump

def textLine (c : Command) : Text :=
  (Text.ofInt c.line.toInt).padLeft 5 ++ "  " ++ c.render ++ [Text.newline]

def isGuarded (c : Char) : Bool :=
  c = '<' || c = '>' || c = '&' || c.toNat = 0x2028 || c.toNat = 0x2029 || c.toNat < 0x20

def shortEscape? (c : Char) : Option Text :=
  match c.toNat with
  | 8 => some "\\b"
  | 9 => some "\\t"
  | 10 => some "\\n"
  | 12 => some "\\f"
  | 13 => some "\\r"
  | 34 => some "\\\""
  | 92 => some "\\\\"
  | _ => none

def codeEscape (n : Nat) : Text := "\\u" ++ Text.hexPadded 4 n

def symbolText : Symbol → Text
  | .stray _ => codeEscape 0xFFFD
  | .scalar c =>
    match shortEscape? c with
    | some t => t
    | none => if isGuarded c then codeEscape c.toNat else Text.ofChar c

def stringText (t : Text) : Text :=
  Text.doubleQuote :: (Text.symbols t).flatMap symbolText ++ [Text.doubleQuote]

/-- The shortest text that reads back, with an exponent for numbers below a
millionth and from ten to the 21 on. -/
def numberText? (x : Float) : Option Text :=
  match Number.magnitude x with
  | .finite v =>
    let d := Number.shortestDecimal v
    some (Number.minus v.negative
      (if d.digits ≠ 0 && (d.power < -6 || 21 ≤ d.power) then d.scientific 1 else d.positional))
  | _ => none

def listText (items : List Text) : Text :=
  "[" ++ Text.join "," items ++ "]"

def listField (name : Text) (items : List Text) : List Text :=
  if items.isEmpty then [] else [stringText name ++ ":" ++ listText items]

def unwritable? (c : Command) : Option Float := c.numeric.find? fun x => (numberText? x).isNone

def objectLine (c : Command) : Except Failure Text :=
  match unwritable? c with
  | some x => .error (.other (Text.ofString "json: unsupported value: " ++ Number.shortest x))
  | none =>
    let fields :=
      [stringText "major" ++ ":" ++ stringText c.major] ++
        listField "minor" (c.minor.map stringText) ++
        listField "numeric" (c.numeric.filterMap numberText?) ++
        listField "strings" (c.strings.map stringText) ++
        [stringText "line" ++ ":" ++ Text.ofInt c.line.toInt]
    .ok (Text.openBrace :: Text.join "," fields ++ [Text.closeBrace, Text.newline])

def lines (line : Command → Except Failure Text) (src : Source) (cancelled : Bool) :
    Option Failure × List Note × List Text :=
  src.drain cancelled
    (fun acc c =>
      match line c with
      | .ok t => (.ok (), t :: acc)
      | .error e => (.error e, acc))
    [] [] (src.bound + 1)

end Toolpath.Dump
