import Toolpath.Text.Basic
import Toolpath.Number.Binary

/-!
# Doubles as decimal text

`fixed` writes a double with a given number of decimals: the exact binary
value rounded to that many places, a tie going to the even digit. `shortest`
finds the fewest digits that read back as the same double, and of those the
closest. Reading accepts what either of them writes, and takes the double
nearest to the decimal value.
-/

namespace Toolpath.Number

def scaledDigits (places : Nat) (v : Dyadic) : Nat :=
  let (n, d) := scale v.mantissa v.exponent
  divideToEven (n * Nat.pow 10 places) d

def pointed (places n : Nat) : Text :=
  if places = 0 then Text.ofNat n
  else
    let frac := Text.ofNat (n % Nat.pow 10 places)
    Text.ofNat (n / Nat.pow 10 places) ++ Text.point ::
      (List.replicate (places - frac.length) Text.zero ++ frac)

def minus (negative : Bool) (t : Text) : Text := if negative then (45 : UInt8) :: t else t

def special : Magnitude → Text
  | .infinite true => "-Inf"
  | .infinite false => "+Inf"
  | _ => "NaN"

def fixed (places : Nat) (x : Float) : Text :=
  match magnitude x with
  | .finite v => minus v.negative (pointed places (scaledDigits places v))
  | m => special m

structure Decimal where
  digits : Nat
  exponent : Int
deriving DecidableEq, Repr

structure Ratio where
  num : Nat
  den : Nat

def Ratio.lt (a b : Ratio) : Bool := a.num * b.den < b.num * a.den
def Ratio.le (a b : Ratio) : Bool := a.num * b.den ≤ b.num * a.den

def ratio (n : Nat) (e : Int) : Ratio := ⟨(scale n e).1, (scale n e).2⟩

def Decimal.ratio (d : Decimal) : Ratio :=
  if 0 ≤ d.exponent then ⟨d.digits * Nat.pow 10 d.exponent.toNat, 1⟩
  else ⟨d.digits, Nat.pow 10 (-d.exponent).toNat⟩

/-- The reals that round to one double: those between `low` and `high`, the
ends included when `closed`. `value` is the double itself. -/
structure Interval where
  low : Ratio
  value : Ratio
  high : Ratio
  closed : Bool

def interval (v : Dyadic) : Interval :=
  let below := if v.mantissa = Nat.pow 2 52 ∧ -1074 < v.exponent then 4 * v.mantissa - 1
    else 4 * v.mantissa - 2
  { low := ratio below (v.exponent - 2)
    value := ratio v.mantissa v.exponent
    high := ratio (4 * v.mantissa + 2) (v.exponent - 2)
    closed := v.mantissa % 2 = 0 }

def Interval.holds (i : Interval) (d : Decimal) : Bool :=
  if i.closed then i.low.le d.ratio && d.ratio.le i.high
  else i.low.lt d.ratio && d.ratio.lt i.high

/-- The number of digits before the point of a quotient that is at least one;
otherwise minus the number of zeros right behind the point. -/
def decimalOrder (r : Ratio) : Int :=
  if r.den ≤ r.num then ((Nat.toDigits 10 (r.num / r.den)).length : Int)
  else
    -- the quotient of the two lengths is off by at most one
    let guess : Int := (Nat.toDigits 10 r.num).length - (Nat.toDigits 10 r.den).length
    if Ratio.lt r (Decimal.ratio ⟨1, guess⟩) then guess else guess + 1

/-- Of the two neighbours of the value on the grid of `n` digits, the one in
the interval; of two, the closer one, a tie going to the even digit. -/
def Interval.onGrid? (i : Interval) (order : Int) (n : Nat) : Option Decimal :=
  let e := order - n
  let step : Ratio := Decimal.ratio ⟨1, e⟩
  let digits := i.value.num * step.den / (i.value.den * step.num)
  let below : Decimal := ⟨digits, e⟩
  let above : Decimal := ⟨digits + 1, e⟩
  match i.holds below && digits != 0, i.holds above with
  | false, false => none
  | true, false => some below
  | false, true => some above
  | true, true =>
    let half : Ratio := Decimal.ratio ⟨(2 * digits + 1) * 5, e - 1⟩
    if i.value.lt half then some below
    else if half.lt i.value then some above
    else if digits % 2 = 0 then some below else some above

def Interval.search (i : Interval) (order : Int) (n : Nat) : (fuel : Nat) → Decimal
  | 0 => ⟨0, 0⟩
  | fuel + 1 => (i.onGrid? order n).getD (i.search order (n + 1) fuel)

def Decimal.strip (d : Decimal) : (fuel : Nat) → Decimal
  | 0 => d
  | fuel + 1 =>
    if d.digits ≠ 0 ∧ d.digits % 10 = 0 then Decimal.strip ⟨d.digits / 10, d.exponent + 1⟩ fuel
    else d

/-- The fewest digits that read back. Seventeen always suffice. -/
def shortestDecimal (v : Dyadic) : Decimal :=
  if v.mantissa = 0 then ⟨0, 0⟩
  else
    let i := interval v
    (i.search (decimalOrder i.value) 1 17).strip 17

def Decimal.positional (d : Decimal) : Text :=
  if 0 ≤ d.exponent then Text.ofNat (d.digits * Nat.pow 10 d.exponent.toNat)
  else pointed (-d.exponent).toNat d.digits

def Decimal.whole? (d : Decimal) : Option Nat :=
  if 0 ≤ d.exponent then some (d.digits * Nat.pow 10 d.exponent.toNat) else none

def shortest (x : Float) : Text :=
  match magnitude x with
  | .finite v => minus v.negative (shortestDecimal v).positional
  | m => special m

def Decimal.power (d : Decimal) : Int := d.exponent + (Text.ofNat d.digits).length - 1

def Decimal.scientific (width : Nat) (d : Decimal) : Text :=
  let ds := Text.ofNat d.digits
  let e := d.power
  let digits := Text.ofNat e.natAbs
  let body := match ds with
    | [] => []
    | a :: [] => [a]
    | a :: rest => a :: Text.point :: rest
  body ++ Text.ofString (if e < 0 then "e-" else "e+") ++
    List.replicate (width - digits.length) Text.zero ++ digits

/-- The shortest text that reads back, with an exponent for numbers below a
ten thousandth and from a million on. -/
def general (x : Float) : Text :=
  match magnitude x with
  | .finite v =>
    let d := shortestDecimal v
    minus v.negative
      (if d.digits ≠ 0 && (d.power < -4 || 6 ≤ d.power) then d.scientific 2 else d.positional)
  | m => special m

inductive ReadError
  | invalid
  | outOfRange (value : Float)

def Decimal.order (d : Decimal) : Int := (Nat.toDigits 10 d.digits).length + d.exponent

def Decimal.nearest? (negative : Bool) (d : Decimal) : Option Float :=
  if d.digits = 0 ∨ d.order < -330 then some (withSign negative 0)
  else if 310 < d.order then none
  else Number.nearest? negative d.ratio.num d.ratio.den

def readSign : Text → Bool × Text
  | 45 :: t => (true, t)
  | 43 :: t => (false, t)
  | t => (false, t)

/-- A mantissa: its digits, the number of them behind the point, whether there
is any digit, and the rest. -/
structure Mantissa where
  digits : Text
  behind : Nat
  rest : Text

def readMantissa (isDigit : UInt8 → Bool) (t : Text) : Mantissa :=
  let whole := t.takeWhile isDigit
  match t.dropWhile isDigit with
  | 46 :: t =>
    let frac := t.takeWhile isDigit
    ⟨whole ++ frac, frac.length, t.dropWhile isDigit⟩
  | rest => ⟨whole, 0, rest⟩

def readExponent? (t : Text) : Option Int :=
  let (negative, ds) := readSign t
  if ds ≠ [] ∧ ds.all Text.isDigit then
    let n : Int := Text.natValue ds
    some (if negative then -n else n)
  else none

/-- A decimal number: digits with at most one point, at least one digit, and
optionally an exponent. -/
def readDecimal? (t : Text) : Option Decimal :=
  let m := readMantissa Text.isDigit t
  if m.digits = [] then none
  else
    let value := Text.natValue m.digits
    match m.rest with
    | [] => some ⟨value, -(m.behind : Int)⟩
    | e :: rest =>
      if e = 101 ∨ e = 69 then (readExponent? rest).map fun x => ⟨value, x - m.behind⟩
      else none

def read (t : Text) : Except ReadError Float :=
  let (negative, body) := readSign t
  match readDecimal? body with
  | none => .error .invalid
  | some d =>
    match d.nearest? negative with
    | some x => .ok x
    | none => .error (.outOfRange (infinity negative))

/-- Underscores may only stand between digits, where the base mark counts as one. -/
def underscoresFit (hex : Bool) (t : Text) : Bool :=
  let isDigit (b : UInt8) : Bool := Text.isDigit b || (hex && (Text.hexValue? b).isSome)
  let rec go : (last : Bool × Bool) → Text → Bool
    | (_, pending), [] => !pending
    | (digit, pending), b :: t =>
      if isDigit b then go (true, false) t
      else if b = 95 then digit && go (false, true) t
      else !pending && go (false, false) t
  go (hex, false) t

/-- A hexadecimal number: hexadecimal digits with at most one point and a
binary exponent, which must be there. -/
def readHex? (t : Text) : Option (Nat × Int) :=
  let plain := t.filter (· != 95)
  if !underscoresFit true t then none
  else
    let m := readMantissa (fun b => (Text.hexValue? b).isSome) plain
    if m.digits = [] then none
    else
      let value := m.digits.foldl (fun n b => 16 * n + (Text.hexValue? b).getD 0) 0
      match m.rest with
      | p :: rest =>
        if p = 112 ∨ p = 80 then (readExponent? rest).map fun x => (value, x - 4 * m.behind)
        else none
      | [] => none

def nearestBinary? (negative : Bool) (n : Nat) (e : Int) : Option Float :=
  if n = 0 then some (withSign negative 0)
  else if 1100 < e + n.log2 then none
  else if e + n.log2 < -1200 then some (withSign negative 0)
  else nearest? negative (scale n e).1 (scale n e).2

/-- Reads any spelling of a number: decimal, hexadecimal with a binary
exponent, `inf`, `infinity` and `nan`, the words in either case. Underscores
may separate digits. -/
def readAny (t : Text) : Except ReadError Float :=
  let (negative, body) := readSign t
  let word := body.map Text.asciiLower
  if word = "inf" ∨ word = "infinity" then .ok (infinity negative)
  else if t.map Text.asciiLower = "nan" then .ok nan
  else match word with
    | 48 :: 120 :: b :: rest =>
      match readHex? (b :: rest) with
      | none => .error .invalid
      | some (n, e) =>
        match nearestBinary? negative n e with
        | some x => .ok x
        | none => .error (.outOfRange (infinity negative))
    | _ => if underscoresFit false body then read (t.filter (· != 95)) else .error .invalid

/-- The power of ten with a natural exponent, as a product of two powers that
are each nearest; past the range it is infinite. -/
def powerOfTen (n : Nat) : Float :=
  if 308 < n then infinity false
  else ofNat false (Nat.pow 10 (n / 32 * 32)) * ofNat false (Nat.pow 10 (n % 32))

end Toolpath.Number
