import Toolpath.Machine.State
import Toolpath.Number.Angle

/-!
# Arcs and planes

A circle is announced by one command and followed by the next motion. In its
plane an arc is written with its end point, and with the offsets of its center
or with its radius. A move that cannot be an arc stays a line.
-/

namespace Toolpath

inductive Axis
  | x
  | y
  | z
deriving DecidableEq, Repr

namespace Axis

def register : Axis → Text
  | x => "X"
  | y => "Y"
  | z => "Z"

def offset : Axis → Text
  | x => "I"
  | y => "J"
  | z => "K"

end Axis

def Point.along (p : Point) : Axis → Float
  | .x => p.x
  | .y => p.y
  | .z => p.z

inductive Plane
  | xy
  | zx
  | yz
deriving DecidableEq, Repr

namespace Plane

def name : Plane → Text
  | xy => "xy"
  | zx => "zx"
  | yz => "yz"

def code : Plane → Function
  | xy => .planeXY
  | zx => .planeZX
  | yz => .planeYZ

end Plane

structure Frame where
  first : Axis
  second : Axis
  normal : Axis
deriving DecidableEq

namespace Frame

def ofPlane : Plane → Frame
  | .xy => ⟨.x, .y, .z⟩
  | .zx => ⟨.z, .x, .y⟩
  | .yz => ⟨.y, .z, .x⟩

/-- The frame of the plane of this name. A name of no plane has the first axis only. -/
def named (name : Text) : Frame :=
  match [Plane.xy, .zx, .yz].find? fun p => p.name = name with
  | some p => ofPlane p
  | none => ⟨.x, .x, .x⟩

def registers (f : Frame) : List Text := [f.first.register, f.second.register]

end Frame

namespace Arc

def fullTurn : Float := 2 * Number.pi

/-- An angle that is not positive is a turn short. -/
def turned (d : Float) : Float := if d ≤ 1e-9 then d + fullTurn else d

def heading (f : Frame) (center p : Point) : Float :=
  Number.atan2 (p.along f.second - center.along f.second) (p.along f.first - center.along f.first)

/-- The angle swept around the center; a closed arc sweeps a full turn. -/
def sweep (f : Frame) (start stop center : Point) (counter : Bool) : Float :=
  let d := heading f center stop - heading f center start
  turned (turned (if counter then d else -d))

def radius (f : Frame) (c : Circle) (start : Point) : Float :=
  if c.radius ≤ 0 then
    Number.hypot (start.along f.first - c.center.along f.first)
      (start.along f.second - c.center.along f.second)
  else c.radius

/-- The sense of an arc: the stated one, or the one that its axis asks for. -/
def winding? (f : Frame) (c : Circle) : Option Winding :=
  match c.winding with
  | some t => some t
  | none =>
    let n := c.axis.along f.normal
    if Numeric.tolerance < n then some .counter
    else if n < -Numeric.tolerance then some .clockwise
    else none

end Arc

namespace Machine

def announceCircle (c : Command) : Action Unit := do
  match c.numeric with
  | cx :: cy :: cz :: i :: j :: k :: _ =>
    let winding :=
      if c.hasMinor ["clw", "cw"] then some Winding.clockwise
      else if c.hasMinor ["cclw", "ccw"] then some .counter
      else none
    modify fun m => { m with
      circle := some
        { center := ⟨cx, cy, cz⟩, axis := ⟨i, j, k⟩, radius := c.number 6 0
          winding, line := c.line } }
  | _ => note .warning "circle needs a center and an axis" [atLine c.line]

def setArcWord (name : Text) (x : Float) : Action Unit := do
  setRegister name x
  flag true [name]

def emitArcWords (f : Frame) (c : Circle) (winding : Winding) (start : Point) : Action Unit := do
  let stop := (← get).position
  emitModal .motion winding.code
  flag true f.registers
  if (← get).profile.arcRadius &&
      Arc.sweep f start stop c.center (winding = .counter) < Number.pi then
    setArcWord "R" (Arc.radius f c start)
  else
    for a in [f.first, f.second] do
      setArcWord a.offset (c.center.along a - start.along a)

/-- Turns the announced circle, if there is one, into an arc from `start` to the
present position; the answer is whether the move is an arc. -/
def followCircle (start : Point) (rapid : Bool) : Action Bool := do
  let m ← get
  match m.circle with
  | none => return false
  | some c =>
    set { m with circle := none }
    if rapid || m.active .cycle ≠ [] then
      note .warning "circle dropped before a rapid or drilling move" [atLine c.line]
      return false
    let plane := m.vars.text Variable.plane Plane.xy.name
    let f := Frame.named plane
    match Arc.winding? f c with
    | some winding =>
      emitArcWords f c winding start
      return true
    | none =>
      note .warning "circle axis is not normal to the working plane"
        [atLine c.line, ("plane", .text plane)]
      return false

def planeOf? (c : Command) : Option Plane :=
  if c.hasMinor ["xy", "yx"] then some .xy
  else if c.hasMinor ["zx", "xz"] then some .zx
  else if c.hasMinor ["yz", "zy"] then some .yz
  else
    match c.numeric with
    | [] => none
    | n :: _ =>
      let n := Number.round n
      if n == 17 then some .xy else if n == 18 then some .zx else if n == 19 then some .yz else none

def selectPlane (c : Command) : Action Unit := do
  match planeOf? c with
  | some p =>
    setVariable Variable.plane (.text p.name)
    emitModal .plane p.code
    writeBlock
  | none => note .warning "unknown plane" [atLine c.line, ("plane", .text c.render)]

end Machine
end Toolpath
