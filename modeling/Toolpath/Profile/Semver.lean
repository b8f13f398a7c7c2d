import Toolpath.Text.Basic

/-!
# Semantic versions

`MAJOR[.MINOR[.PATCH[-PRE][+BUILD]]]`, with or without a `v` in front.
Numbers have no leading zeros.
-/

namespace Toolpath.Semver

def isIdentifierByte (b : UInt8) : Bool :=
  Text.isDigit b || Text.isUpper b || Text.isLower b || b = 45

def number? (t : Text) : Option Text :=
  match t.takeWhile Text.isDigit with
  | [] => none
  | [_] => some (t.dropWhile Text.isDigit)
  | d :: _ => if d = Text.zero then none else some (t.dropWhile Text.isDigit)

/-- Digits only, with a leading zero. -/
def isBadNumber (t : Text) : Bool := t.all Text.isDigit && 1 < t.length && t.head? = some Text.zero

def identifiersFit (strict : Bool) (t : Text) : Bool :=
  (Text.split Text.point t).all fun s =>
    s ≠ [] && s.all isIdentifierByte && !(strict && isBadNumber s)

def isTail (t : Text) : Bool :=
  let (front, build) := match Text.cut? 43 t with
    | some (a, b) => (a, some b)
    | none => (t, none)
  let preFits := match front with
    | [] => true
    | 45 :: pre => identifiersFit true pre
    | _ => false
  preFits && build.all (identifiersFit false)

def isVersion (t : Text) : Bool :=
  match number? t with
  | none => false
  | some [] => true
  | some (46 :: t) =>
    match number? t with
    | none => false
    | some [] => true
    | some (46 :: t) =>
      match number? t with
      | none => false
      | some t => isTail t
    | some _ => false
  | some _ => false

def isValid (t : Text) : Bool := isVersion (t.dropFront "v")

end Toolpath.Semver
