import Toolpath.Word.Basic

/-!
# Registers

The numeric words of one program, each under its name. A name is matched
without outer blanks and in upper case; registers are kept in the order in
which they were created, and an index maps each name to its position.
-/

namespace Toolpath

structure Registers where
  list : List Numeric := []
  index : List (Text × Nat) := []
deriving DecidableEq

namespace Registers

def coordinateFormat : NumberFormat :=
  { sign := .minusOnly, point := .always, before := 4, after := 3, leadingZeros := true
    trailing := .keepOne }

def feedFormat : NumberFormat :=
  { sign := .minusOnly, point := .optional, before := 3, after := 1, trailing := .keepAll }

def integerFormat : NumberFormat :=
  { sign := .minusOnly, point := .never, before := 5, trailing := .keepOne }

/-- The format that goes with a well-known address; others are coordinates. -/
def defaultFormat (name : Text) : NumberFormat :=
  if name = "F" then feedFormat
  else if name = "S" || name = "T" then integerFormat
  else coordinateFormat

def normalName (name : Text) : Text := name.trim.upper

def position? (rs : Registers) (name : Text) : Option Nat := rs.index.lookup (normalName name)

def find? (rs : Registers) (name : Text) : Option Numeric :=
  (rs.position? name).bind fun i => rs.list[i]?

def getOrAdd (rs : Registers) (name : Text) (initial : Float) (modal : Bool)
    (format : NumberFormat) : Except Violation Registers := do
  let key := normalName name
  Contract.precondition.require (!key.isEmpty) "register name must not be empty"
  if (rs.index.lookup key).isSome then return rs
  else
    let n ← Numeric.new key format initial modal
    let n ← n.setInitial initial
    return { list := rs.list ++ [n], index := rs.index ++ [(key, rs.list.length)] }

def ensure (rs : Registers) (name : Text) : Except Violation Registers :=
  rs.getOrAdd (normalName name) 0 true (defaultFormat (normalName name))

def modify (rs : Registers) (name : Text) (f : Numeric → Numeric) : Registers :=
  match rs.position? name with
  | some i => { rs with list := rs.list.modify i f }
  | none => rs

def configure (rs : Registers) (name : Text) (format : NumberFormat) (modal : Bool) :
    Except Violation Registers := do
  let rs ← rs.ensure name
  return rs.modify name fun n => (n.setFormat format).setModal modal

def names (rs : Registers) : List Text := rs.list.map Numeric.address

def pendingOutput (rs : Registers) : List Numeric := rs.list.filter fun n => n.changed || !n.modal

def clearFlags (rs : Registers) : Registers :=
  { rs with list := rs.list.map fun n => { n with changed := false } }

end Registers

inductive WordRef
  | register (name : Text)
  | loose (i : Nat)
deriving DecidableEq

structure Rack where
  registers : Registers := {}
  loose : List Word := []
deriving DecidableEq

namespace Rack

def get? (rack : Rack) : WordRef → Option Word
  | .register name => (rack.registers.find? name).map Word.numeric
  | .loose i => rack.loose[i]?

def set (rack : Rack) (ref : WordRef) (w : Word) : Rack :=
  match ref, w with
  | .register name, .numeric n => { rack with registers := rack.registers.modify name fun _ => n }
  | .register _, _ => rack
  | .loose i, w => { rack with loose := rack.loose.set i w }

def flag (rack : Rack) (b : Bool) (ref : WordRef) : Rack :=
  match rack.get? ref with
  | some w => rack.set ref (w.flagged b)
  | none => rack

/-- Reads a word for output with `read`, and keeps what it has become. -/
def emit (rack : Rack) (read : Word → Text × Word) (ref : WordRef) : Text × Rack :=
  match rack.get? ref with
  | some w => ((read w).1, rack.set ref (read w).2)
  | none => ([], rack)

end Rack
end Toolpath
