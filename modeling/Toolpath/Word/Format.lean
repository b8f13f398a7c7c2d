import Toolpath.Contract
import Toolpath.Text.Blank
import Toolpath.Text.Case
import Toolpath.Text.Quoted

/-!
# Number formats

A number format says how a numeric word is written: the address, the sign,
the digits before and behind the point and the point itself. It has a compact
grammar, an address and then braces: a sign mark `-` or `+`; a run of `0` and
`#` for the digits before the point, where any `0` asks for leading zeros; a
point mark, `!` for always, `.` for optional and `^` for an implied point;
and a run of `0` and `#` for the digits behind it, whose zeros select what
happens to zeros at the end.
-/

namespace Toolpath

inductive SignMode
  | none
  | minusOnly
  /-- A sign is always written. -/
  | plusMinus
  /-- A code without a meaning of its own. -/
  | unlisted (code : Int)
deriving DecidableEq, Repr

inductive PointMode
  /-- No point is written; digits behind it are implied. -/
  | never
  /-- A point is written only when there is a fraction. -/
  | optional
  | always
  | unlisted (code : Int)
deriving DecidableEq, Repr

inductive TrailingZeros
  | strip
  /-- At least one digit stays behind the point. -/
  | keepOne
  | keepAll
  | unlisted (code : Int)
deriving DecidableEq, Repr

structure NumberFormat where
  address : Text := []
  sign : SignMode := .none
  point : PointMode := .never
  before : Int := 0
  after : Int := 0
  leadingZeros : Bool := false
  trailing : TrailingZeros := .strip
deriving DecidableEq

namespace NumberFormat

def withAddress (f : NumberFormat) (address : Text) : NumberFormat := { f with address }

def fallback (address : Text) : NumberFormat :=
  { address, sign := .minusOnly, point := .always, before := 4, after := 3
    leadingZeros := true, trailing := .keepOne }

def isMark (b : UInt8) : Bool := b = Text.zero || b = 35

def readSign : Text → SignMode × Text
  | 45 :: t => (.minusOnly, t)
  | 43 :: t => (.plusMinus, t)
  | t => (.none, t)

def readPoint : Text → (PointMode × Bool) × Text
  | 33 :: t => ((.always, false), t)
  | 46 :: t => ((.optional, false), t)
  | 94 :: t => ((.never, true), t)
  | t => ((.never, false), t)

def trailingOf (marks : Text) : TrailingZeros :=
  let zeros := marks.count Text.zero
  if marks.length = 0 then .keepOne
  else if zeros = 0 then .strip
  else if zeros = marks.length then .keepAll
  else .keepOne

def parseBody? (address body : Text) : Option NumberFormat :=
  let (sign, t) := readSign body
  let marks := t.takeWhile isMark
  let ((point, implied), t) := readPoint (t.dropWhile isMark)
  let behind := t.takeWhile isMark
  if t.dropWhile isMark ≠ [] || marks.length + behind.length = 0 || (implied && behind.length = 0)
  then none
  else some
    { address, sign, point
      before := marks.length
      after := behind.length
      leadingZeros := marks.contains Text.zero
      trailing := trailingOf behind }

def allLetters (t : Text) : Bool := (Text.symbols t).all fun r => isLetter r.char

def parse? (s : Text) : Option NumberFormat :=
  match Text.cut? Text.openBrace s.trim with
  | none => none
  | some (address, t) =>
    if t.getLast? = some Text.closeBrace && allLetters address then parseBody? address t.dropLast
    else none

def leadingAddress (s : Text) : Text :=
  Text.ofSymbols ((Text.symbols s.trim).takeWhile fun r => isLetter r.char)

/-- Reads a format; what is not well formed keeps its address letters only. -/
def parse (s : Text) : NumberFormat := (parse? s).getD (fallback (leadingAddress s))

def parseKnown (s : Text) : Except Violation NumberFormat :=
  match parse? s with
  | some f => .ok f
  | none => .error (.unmet .precondition
      (Text.ofString "format spec " ++ Text.quoted s ++ " must be well formed"))

def signMark : SignMode → Text
  | .minusOnly => "-"
  | .plusMinus => "+"
  | _ => []

def pointMark (f : NumberFormat) : Text :=
  match f.point with
  | .always => "!"
  | .optional => "."
  | .never => if 0 < f.after then "^" else []
  | .unlisted _ => []

def trailingMarks (f : NumberFormat) : Text :=
  if 0 < f.after then
    match f.trailing with
    | .strip => List.replicate f.after.toNat 35
    | .keepAll => List.replicate f.after.toNat Text.zero
    | _ => Text.zero :: List.replicate (f.after.toNat - 1) 35
  else []

def render (f : NumberFormat) : Text :=
  f.address ++ Text.openBrace :: signMark f.sign ++
    List.replicate f.before.toNat (if f.leadingZeros then Text.zero else 35) ++
    f.pointMark ++ f.trailingMarks ++ [Text.closeBrace]

def places (f : NumberFormat) : Nat := f.after.toNat

def fraction (places n : Nat) : Text :=
  let digits := Text.ofNat (n % Nat.pow 10 places)
  if places = 0 then [] else List.replicate (places - digits.length) Text.zero ++ digits

def stripZeros (t : Text) : Text := t.dropWhileBack (· = Text.zero)

def trimFraction (f : NumberFormat) (frac : Text) : Text :=
  match f.trailing with
  | .strip => stripZeros frac
  | .keepOne => if stripZeros frac = [] && frac ≠ [] then [Text.zero] else stripZeros frac
  | _ => frac

/-- How many digits leading zeros fill up, counted in 64 bits. -/
def width (f : NumberFormat) : Int :=
  if f.point = .never then (f.before + f.places).bmod (Nat.pow 2 64) else f.before

def wholeDigits (f : NumberFormat) (n : Nat) : Text :=
  let digits := if f.point = .never then Text.ofNat n else Text.ofNat (n / Nat.pow 10 f.places)
  if f.leadingZeros then List.replicate (f.width.toNat - digits.length) Text.zero ++ digits
  else digits

def pointDigits (f : NumberFormat) (n : Nat) : Text :=
  let frac := f.trimFraction (fraction f.places n)
  match f.point with
  | .never => []
  | .always => Text.point :: frac
  | .optional => if frac.all (· = Text.zero) then [] else Text.point :: frac
  | .unlisted _ => if frac = [] then [] else Text.point :: frac

def signText (f : NumberFormat) (negative : Bool) : Text :=
  if negative then (if f.sign = .none then [] else "-")
  else if f.sign = .plusMinus then "+" else []

/-- A number whose absolute value, rounded to the places of the format and
multiplied by the power of ten, is `n`. Zero has no minus. -/
def write (f : NumberFormat) (negative : Bool) (n : Nat) : Text :=
  f.address ++ f.signText (negative && n != 0) ++ f.wholeDigits n ++ f.pointDigits n

def format (f : NumberFormat) (x : Float) : Text :=
  match Number.magnitude x with
  | .finite v => f.write v.negative (Number.scaledDigits f.places v)
  | m => f.address ++ Number.special m

def formatFinite (f : NumberFormat) (x : Float) : Except Violation Text := do
  requireFinite "value" x
  return f.format x

inductive ReadError
  | empty (token address : Text)
  | unreadable (token digits : Text) (outOfRange : Bool)
  | notFinite (token : Text)
deriving DecidableEq

def ReadError.message : ReadError → Text
  | empty token address =>
    Text.ofString "token " ++ Text.quoted token ++ " has no value for address " ++
      Text.quoted address
  | unreadable token digits outOfRange =>
    Text.ofString "token " ++ Text.quoted token ++ ": strconv.ParseFloat: parsing " ++
      Text.quoted digits ++
      Text.ofString (if outOfRange then ": value out of range" else ": invalid syntax")
  | notFinite token =>
    Text.ofString "token " ++ Text.quoted token ++ ": value is not finite"

/-- A token without its address, which may be missing or in another case. -/
def stripAddress (f : NumberFormat) (s : Text) : Text :=
  if f.address ≠ [] && f.address.length ≤ s.length &&
    Text.equalFold (s.take f.address.length) f.address
  then s.drop f.address.length else s

def readValue (f : NumberFormat) (token : Text) : Except ReadError Float :=
  let s := f.stripAddress token.trim
  if s = [] then .error (.empty token f.address)
  else match Number.readAny s with
    | .error .invalid => .error (.unreadable token s false)
    | .error (.outOfRange _) => .error (.unreadable token s true)
    | .ok x =>
      if !Number.isFinite x then .error (.notFinite token)
      else if f.point = .never && 0 < f.after && !s.contains Text.point then
        .ok (x / Number.powerOfTen f.places)
      else .ok x

end NumberFormat
end Toolpath
