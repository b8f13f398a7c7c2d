import Toolpath.Text.Quoted

/-!
# Notes

What a run tells its operator besides its result: a level, a message and named
values. `Note.render` is one line of `key=value` pairs, in which a value is
quoted when it would be hard to tell where it ends.
-/

namespace Toolpath

inductive Level
  | debug
  | info
  | warning
deriving DecidableEq, Repr

namespace Level

def name : Level → Text
  | debug => "DEBUG"
  | info => "INFO"
  | warning => "WARN"

def rank : Level → Nat
  | debug => 0
  | info => 1
  | warning => 2

end Level

inductive Detail
  | integer (i : Int)
  | text (t : Text)
  | texts (ts : List Text)
deriving DecidableEq

def Detail.render : Detail → Text
  | integer i => Text.ofInt i
  | text t => t
  | texts ts => Text.ofString "[" ++ Text.join " " ts ++ "]"

structure Note where
  level : Level
  message : Text
  details : List (Text × Detail) := []
deriving DecidableEq

namespace Note

def isAwkward (r : Symbol) : Bool :=
  r.isStray || r.char = ' ' || r.char = '"' || r.char = '=' || r.char = Symbol.replacement ||
    r.code < 0x20 || (0x80 ≤ r.code && !isPrintable r.char)

def guarded (t : Text) : Text :=
  if t.isEmpty || (Text.symbols t).any isAwkward then Text.quoted t else t

def pair (key value : Text) : Text := guarded key ++ "=" ++ guarded value

def render (n : Note) : Text :=
  Text.join " "
    (pair "level" n.level.name :: pair "msg" n.message ::
      n.details.map fun d => pair d.1 d.2.render)

end Note
end Toolpath
