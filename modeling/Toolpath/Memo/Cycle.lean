import Toolpath.Contract
import Toolpath.Memo.Table

/-!
# Cycle calls

A cycle is called with named parameters. A call with the parameters of the
last full call is written as a bare `NAME()`; any other is written in full and
remembered. A call that could not be written is not remembered.
-/

namespace Toolpath

abbrev Parameters := List (Text × Value)

structure CycleMemo where
  name : Text
  last : Option Memo := none
  calls : Nat := 0
  definitions : Nat := 0
deriving DecidableEq

namespace CycleMemo

def new (name : Text) : Except Violation CycleMemo := do
  Contract.precondition.require (!name.isEmpty) "cycle name must not be empty"
  return { name }

/-- The last of several values under one name counts. -/
def remember (params : Parameters) : Memo := params.foldl (fun m p => m.set p.1 p.2) {}

def matchesMemo (params : Parameters) (m : Memo) : Bool :=
  params.length = m.size && params.all fun p => (m.get? p.1).any fun old => old.same p.2

def parameterText (p : Text × Value) : Text := p.1 ++ "=" ++ p.2.render

def fullLine (name : Text) (params : Parameters) : Text :=
  name ++ "(" ++ Text.join ", " (params.map parameterText) ++ ")"

def repeats (c : CycleMemo) (params : Parameters) : Bool := c.last.any (matchesMemo params)

def line (c : CycleMemo) (params : Parameters) : Text × Bool :=
  if c.repeats params then (c.name ++ "()", false) else (fullLine c.name params, true)

def after (c : CycleMemo) (params : Parameters) (written : Bool) : CycleMemo :=
  let c := { c with calls := c.calls + 1 }
  if !(c.line params).2 || !written then c
  else { c with last := some (remember params), definitions := c.definitions + 1 }

def reset (c : CycleMemo) : CycleMemo := { c with last := none }

end CycleMemo
end Toolpath
