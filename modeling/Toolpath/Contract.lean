import Toolpath.Number.Decimal

/-!
# Contracts

A violation is a broken promise between parts of the library, never bad
input: it stops the work at once, and says which kind of promise was broken.
-/

namespace Toolpath

inductive Contract
  | precondition
  | postcondition
  | invariant
deriving DecidableEq, Repr

def Contract.title : Contract → Text
  | precondition => "PRECONDITION"
  | postcondition => "POSTCONDITION"
  | invariant => "INVARIANT"

inductive Violation
  /-- A stated condition does not hold. -/
  | unmet (contract : Contract) (condition : Text)
  /-- A value that must be finite is not. -/
  | notFinite (name : Text) (value : Float)
  | missing (name : Text)
  | failed (name reason : Text)
deriving DecidableEq

namespace Violation

def contract : Violation → Contract
  | unmet c _ => c
  | notFinite _ _ => .precondition
  | missing _ => .precondition
  | failed _ _ => .postcondition

def detail : Violation → Text
  | unmet _ condition => condition
  | notFinite name value =>
    name ++ " must be finite, got " ++ Number.shortest value
  | missing name => name ++ " must not be nil"
  | failed name reason => name ++ " must not fail: " ++ reason

def message (v : Violation) : Text :=
  v.contract.title ++ " VIOLATION: " ++ v.detail

end Violation

def Contract.require (c : Contract) (holds : Bool) (condition : Text) : Except Violation Unit :=
  if holds then .ok () else .error (.unmet c condition)

def requireFinite (name : Text) (x : Float) : Except Violation Unit :=
  if Number.isFinite x then .ok () else .error (.notFinite name x)

def requirePresent {α : Type} (name : Text) : Option α → Except Violation α
  | some a => .ok a
  | none => .error (.missing name)

def requireSuccess (name : Text) : Option Text → Except Violation Unit
  | none => .ok ()
  | some reason => .error (.failed name reason)

end Toolpath
