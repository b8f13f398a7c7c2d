import Toolpath.Text.Case
import Toolpath.Number.Decimal

/-!
# Commands

A command is one statement of a cutter location program: a major word and its
parameters, sorted into minor words, numbers and strings. The order across
the three kinds is not kept, so `Command.render` is a canonical text: upper
case minor words, then numbers, then quoted strings.
-/

namespace Toolpath

structure Command where
  major : Text := []
  minor : List Text := []
  numeric : List Float := []
  strings : List Text := []
  line : Int64 := 0
deriving DecidableEq, Inhabited

namespace Command

def continuationWord : Text := "continuation"

def isContinuation (c : Command) : Bool := c.major = continuationWord

def hasMinor (c : Command) (words : List Text) : Bool := words.any fun w => c.minor.contains w

def firstMinor (c : Command) : Text := c.minor.headD []

def number (c : Command) (i : Nat) (default : Float) : Float := c.numeric.getD i default

def string (c : Command) (i : Nat) : Text := c.strings.getD i []

def quotedString (t : Text) : Text := Text.singleQuote :: t ++ [Text.singleQuote]

def parameters (c : Command) : List Text :=
  c.minor.map Text.upper ++ c.numeric.map Number.shortest ++ c.strings.map quotedString

def parameterList (c : Command) : Text := Text.join ", " c.parameters

def render (c : Command) : Text :=
  if c.isContinuation then c.parameterList
  else if c.parameters.isEmpty then c.major.upper
  else c.major.upper ++ Text.slash :: c.parameterList

end Command
end Toolpath
