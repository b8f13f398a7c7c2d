/-!
# Doubles as exact numbers

A finite double is a sign, a natural mantissa and a power of two. Everything
that reads or writes a double does so through this view, in exact arithmetic
on natural numbers. `nearest` is the way back: the double closest to a
quotient, a tie going to the even mantissa.
-/

namespace Toolpath

/-- The number `mantissa * 2 ^ exponent`, negated if `negative`. -/
structure Dyadic where
  negative : Bool
  mantissa : Nat
  exponent : Int
deriving DecidableEq, Repr

inductive Magnitude
  | finite (d : Dyadic)
  | infinite (negative : Bool)
  | undefined
deriving DecidableEq, Repr

namespace Number

def signBit (x : Float) : Bool := Nat.pow 2 63 ≤ x.toBits.toNat

def magnitude (x : Float) : Magnitude :=
  let bits : Nat := x.toBits.toNat
  let field : Nat := bits / Nat.pow 2 52 % Nat.pow 2 11
  let fraction : Nat := bits % Nat.pow 2 52
  if field = 2047 then
    if fraction = 0 then .infinite (signBit x) else .undefined
  else if field = 0 then .finite ⟨signBit x, fraction, -1074⟩
  else .finite ⟨signBit x, fraction + Nat.pow 2 52, Int.ofNat field - 1075⟩

def isFinite (x : Float) : Bool := x.toBits.toNat / Nat.pow 2 52 % Nat.pow 2 11 != 2047

def isNan (x : Float) : Bool := magnitude x == .undefined

def infinity (negative : Bool) : Float :=
  Float.ofBits (if negative then 0xFFF0000000000000 else 0x7FF0000000000000)

def nan : Float := Float.ofBits 0x7FF8000000000000

/-- `n / d` rounded to a natural number, a tie going to the even one. -/
def divideToEven (n d : Nat) : Nat :=
  let q := n / d
  let r := n % d
  if 2 * r < d then q else if d < 2 * r then q + 1 else if q % 2 = 0 then q else q + 1

/-- `n / d` rounded to a natural number, a tie going up. -/
def divideToUpper (n d : Nat) : Nat := (2 * n + d) / (2 * d)

def scale (n : Nat) (e : Int) : Nat × Nat :=
  if 0 ≤ e then (n * Nat.pow 2 e.toNat, 1) else (n, Nat.pow 2 (-e).toNat)

/-- The greatest `e` with `2 ^ e ≤ n / d`. -/
def binaryOrder (n d : Nat) : Int :=
  let e : Int := (n.log2 : Int) - d.log2
  let fits := if 0 ≤ e then d * Nat.pow 2 e.toNat ≤ n else d ≤ n * Nat.pow 2 (-e).toNat
  if fits then e else e - 1

/-- A binary floating point format: the number of bits of a mantissa and the
exponents of the smallest and the largest mantissa. -/
structure BinaryFormat where
  precision : Nat
  least : Int
  greatest : Int

def double : BinaryFormat := ⟨53, -1074, 971⟩
def single : BinaryFormat := ⟨24, -149, 104⟩
def half : BinaryFormat := ⟨11, -24, 5⟩

/-- The mantissa and exponent closest to `n / d`, or nothing when that is out of range. -/
def BinaryFormat.round? (f : BinaryFormat) (n d : Nat) : Option (Nat × Int) :=
  if n = 0 then some (0, f.least)
  else
    let e := max f.least (binaryOrder n d - (f.precision - 1 : Nat))
    let m := if 0 ≤ e then divideToEven n (d * Nat.pow 2 e.toNat) else
      divideToEven (n * Nat.pow 2 (-e).toNat) d
    let (m, e) := if m = Nat.pow 2 f.precision then (m / 2, e + 1) else (m, e)
    if f.greatest < e then none else some (m, e)

def pack (m : Nat) (e : Int) : UInt64 :=
  if m < Nat.pow 2 52 then m.toUInt64
  else ((e + 1075).toNat * Nat.pow 2 52 + (m - Nat.pow 2 52)).toUInt64

def withSign (negative : Bool) (bits : UInt64) : Float :=
  Float.ofBits (if negative then bits ||| 0x8000000000000000 else bits)

def nearest? (negative : Bool) (n d : Nat) : Option Float :=
  (double.round? n d).map fun p => withSign negative (pack p.1 p.2)

def BinaryFormat.exponentUnit (f : BinaryFormat) : Nat := Nat.pow 2 (f.precision - 1)

/-- The exponent field of infinities and NaN. -/
def BinaryFormat.topField (f : BinaryFormat) : Nat := (f.greatest - f.least + 2).toNat

def BinaryFormat.signUnit (f : BinaryFormat) : Nat := (f.topField + 1) * f.exponentUnit

def BinaryFormat.unpack (f : BinaryFormat) (bits : Nat) : Magnitude :=
  let negative := bits / f.signUnit % 2 = 1
  let field : Nat := bits / f.exponentUnit % (f.topField + 1)
  let fraction : Nat := bits % f.exponentUnit
  if field = f.topField then if fraction = 0 then .infinite negative else .undefined
  else if field = 0 then .finite ⟨negative, fraction, f.least⟩
  else .finite ⟨negative, fraction + f.exponentUnit, f.least + (field - 1 : Nat)⟩

def ofMagnitude : Magnitude → Float
  | .finite v =>
    let (n, d) := scale v.mantissa v.exponent
    (nearest? v.negative n d).getD (infinity v.negative)
  | .infinite negative => infinity negative
  | .undefined => nan

def BinaryFormat.bits (f : BinaryFormat) (x : Float) : Nat :=
  let signed (negative : Bool) (n : Nat) : Nat := if negative then f.signUnit + n else n
  let top : Nat := f.topField * f.exponentUnit
  match magnitude x with
  | .finite v =>
    let (n, d) := scale v.mantissa v.exponent
    match f.round? n d with
    | some (m, e) =>
      signed v.negative (if m < f.exponentUnit then m
        else (e - f.least + 1).toNat * f.exponentUnit + (m - f.exponentUnit))
    | none => signed v.negative top
  | .infinite negative => signed negative top
  | .undefined => top + f.exponentUnit / 2

def toSingle (x : Float) : Float :=
  match magnitude x with
  | .finite v =>
    let (n, d) := scale v.mantissa v.exponent
    match single.round? n d with
    | some (m, e) =>
      let (n, d) := scale m e
      (nearest? v.negative n d).getD x
    | none => infinity v.negative
  | _ => x

def ofNat (negative : Bool) (n : Nat) : Float := (nearest? negative n 1).getD (infinity negative)

def ofInt (i : Int) : Float := ofNat (i < 0) i.natAbs

def abs (x : Float) : Float := Float.ofBits (x.toBits &&& 0x7FFFFFFFFFFFFFFF)

/-- The nearest whole number, a half going away from zero; the sign of zero stays. -/
def round (x : Float) : Float :=
  match magnitude x with
  | .finite v =>
    if 0 ≤ v.exponent then x
    else ofNat v.negative (divideToUpper v.mantissa (Nat.pow 2 (-v.exponent).toNat))
  | _ => x

/-- The whole part as a 64 bit integer; what does not fit becomes the least integer. -/
def truncate (x : Float) : Int64 :=
  match magnitude x with
  | .finite v =>
    let (n, d) := scale v.mantissa v.exponent
    let whole : Int := if v.negative then -((n / d : Nat) : Int) else (n / d : Nat)
    if -(Nat.pow 2 63 : Int) ≤ whole ∧ whole < Nat.pow 2 63 then Int64.ofInt whole
    else Int64.minValue
  | _ => Int64.minValue

end Number
end Toolpath
