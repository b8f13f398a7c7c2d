import Toolpath.Word.Format

/-!
# Numeric words

A numeric word holds a value, the value before it and a default, and a flag
that says whether it is to be written. A modal word is written only when the
flag is set. Values that differ by no more than the tolerance count as equal.
-/

namespace Toolpath

structure Numeric where
  address : Text
  modal : Bool
  changed : Bool
  value : Float
  previous : Float
  initial : Float
  format : NumberFormat
deriving DecidableEq

namespace Numeric

/-- The greatest difference that does not count as a change. -/
def tolerance : Float := 1e-6

def differs (a b : Float) : Bool := tolerance < Number.abs (a - b)

def new (address : Text) (format : NumberFormat) (initial : Float) (modal : Bool) :
    Except Violation Numeric := do
  requireFinite address initial
  return { address, modal, changed := true, value := initial, previous := initial, initial
           format := format.withAddress address }

def setFormat (n : Numeric) (format : NumberFormat) : Numeric :=
  { n with format := format.withAddress n.address }

def setModal (n : Numeric) (modal : Bool) : Numeric := { n with modal }

/-- Holds a finite value; the flag is set when it differs, and never cleared. -/
def hold (n : Numeric) (x : Float) : Numeric :=
  { n with changed := n.changed || differs x n.value, previous := n.value, value := x }

def set (n : Numeric) (x : Float) : Except Violation Numeric := do
  requireFinite n.address x
  return n.hold x

def setInitial (n : Numeric) (x : Float) : Except Violation Numeric := do
  requireFinite n.address x
  return { n with value := x, previous := x, changed := false }

def flagged (n : Numeric) (changed : Bool) : Numeric := { n with changed }

def showIf (n : Numeric) (x : Float) : Numeric :=
  { n with changed := n.changed || differs x n.value }

def hideIf (n : Numeric) (x : Float) : Numeric :=
  { n with changed := n.changed && differs x n.value }

def resetTo (n : Numeric) (x : Float) (changed : Bool) : Except Violation Numeric := do
  requireFinite n.address x
  return { n with previous := n.value, value := x, changed }

def reset (n : Numeric) (changed : Bool) : Except Violation Numeric := n.resetTo n.initial changed

def valuesDiffer (n : Numeric) : Bool := differs n.value n.previous

def render (n : Numeric) : Text := n.format.format n.value

end Numeric
end Toolpath
