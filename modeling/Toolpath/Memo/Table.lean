import Toolpath.Memo.Value

/-!
# Memo tables

The values last stored under each name. Reading a name back as another kind
of value behaves as if the name were absent.
-/

namespace Toolpath

structure Memo where
  entries : List (Text × Value) := []
deriving DecidableEq

namespace Memo

def get? (m : Memo) (key : Text) : Option Value := m.entries.lookup key

def contains (m : Memo) (key : Text) : Bool := (m.get? key).isSome

def remove (m : Memo) (key : Text) : Memo := ⟨m.entries.filter fun e => e.1 != key⟩

def set (m : Memo) (key : Text) (v : Value) : Memo := ⟨(key, v) :: (m.remove key).entries⟩

def lookup? (m : Memo) (key : Text) (like : Value) : Option Value :=
  (m.get? key).filter fun v => v.sameKind like

/-- The stored value, or `default` when the name is absent or of another kind. -/
def get (m : Memo) (key : Text) (default : Value) : Value := (m.lookup? key default).getD default

def hasChanged (m : Memo) (key : Text) (v : Value) : Bool :=
  match m.get? key with
  | none => true
  | some old => !old.same v

def getOrSet (m : Memo) (key : Text) (default : Value) : Value × Memo :=
  match m.lookup? key default with
  | some v => (v, m)
  | none => (default, m.set key default)

def update (m : Memo) (key : Text) (v : Value) : Bool × Memo := (m.hasChanged key v, m.set key v)

def size (m : Memo) : Nat := m.entries.length

def keys (m : Memo) : List Text := Text.sort (m.entries.map Prod.fst)

def float (m : Memo) (key : Text) (default : Float) : Float :=
  match m.get? key with
  | some (.float x) => x
  | _ => default

def text (m : Memo) (key default : Text) : Text :=
  match m.get? key with
  | some (.text t) => t
  | _ => default

def flag (m : Memo) (key : Text) (default : Bool) : Bool :=
  match m.get? key with
  | some (.flag b) => b
  | _ => default

def integer (m : Memo) (key : Text) (default : Int) : Int :=
  match m.get? key with
  | some (.integer .plain i) => i
  | _ => default

def cycle? (m : Memo) (key : Text) : Option DrillCycle :=
  match m.get? key with
  | some (.cycle c) => some c
  | _ => none

end Memo
end Toolpath
