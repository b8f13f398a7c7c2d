import Toolpath.Number.Binary

/-!
# Angles of plane vectors

The arc tangent by a rational approximation on `[0, 0.66]`, with the argument
reduced to that range first; the angle of a vector with its quadrant; and the
length of a vector computed without overflow in between.
-/

namespace Toolpath.Number

def pi : Float := Float.ofBits 0x400921FB54442D18
def halfPi : Float := Float.ofBits 0x3FF921FB54442D18
def quarterPi : Float := Float.ofBits 0x3FE921FB54442D18

/-- The arc tangent on `[0, 0.66]`. -/
def atanReduced (x : Float) : Float :=
  let p0 := -8.750608600031904122785e-01
  let p1 := -1.615753718733365076637e+01
  let p2 := -7.500855792314704667340e+01
  let p3 := -1.228866684490136173410e+02
  let p4 := -6.485021904942025371773e+01
  let q0 := 2.485846490142306297962e+01
  let q1 := 1.650270098316988542046e+02
  let q2 := 4.328810604912902668951e+02
  let q3 := 4.853903996359136964868e+02
  let q4 := 1.945506571482613964425e+02
  let z := x * x
  let z := z * ((((p0 * z + p1) * z + p2) * z + p3) * z + p4) /
    (((((z + q0) * z + q1) * z + q2) * z + q3) * z + q4)
  x * z + x

def atanPositive (x : Float) : Float :=
  let moreBits := 6.123233995736765886130e-17
  if x ≤ 0.66 then atanReduced x
  else if 2.41421356237309504880 < x then halfPi - atanReduced (1 / x) + moreBits
  else quarterPi + atanReduced ((x - 1) / (x + 1)) + 0.5 * moreBits

def atan (x : Float) : Float :=
  if x == 0 then x
  else if 0 < x then atanPositive x
  else -(atanPositive (-x))

def copySign (x s : Float) : Float := withSign (signBit s) (abs x).toBits

/-- The angle, in `[-π, π]`, of the vector with these coordinates. -/
def atan2 (y x : Float) : Float :=
  let infinite (v : Float) : Bool := !isFinite v && !isNan v
  if isNan y || isNan x then nan
  else if y == 0 then copySign (if signBit x then pi else 0) y
  else if x == 0 then copySign halfPi y
  else if infinite x then
    if signBit x then copySign (if infinite y then 3 * pi / 4 else pi) y
    else copySign (if infinite y then quarterPi else 0) y
  else if infinite y then copySign halfPi y
  else
    let q := atan (y / x)
    if x < 0 then (if q ≤ 0 then q + pi else q - pi) else q

def hypot (p q : Float) : Float :=
  let infinite (v : Float) : Bool := !isFinite v && !isNan v
  if infinite p || infinite q then infinity false
  else if isNan p || isNan q then nan
  else
    let p := abs p
    let q := abs q
    let (big, small) := if p < q then (q, p) else (p, q)
    if big == 0 then 0
    else
      let r := small / big
      big * (r * r + 1).sqrt

end Toolpath.Number
