import Toolpath.Machine.Arc
import Toolpath.Machine.Drill

/-!
# Motions

A motion sets the coordinates and writes a block of what changed. It is rapid
when it was announced as such, an arc when a circle was announced, and a hole
when a canned cycle is active.
-/

namespace Toolpath

namespace ToolAxis

def degrees (radians : Float) : Float := radians * 180 / Number.pi

/-- An angle in degrees without sign, to three decimals, in any numbers that can be
rounded to whole ones. -/
def normal {α : Type} [LT α] [DecidableLT α] [Add α] [Mul α] [Div α] [OfNat α 0] [OfNat α 360]
    [OfNat α 1000] (round : α → α) (a : α) : α :=
  round ((if a < 0 then a + 360 else a) * 1000) / 1000

def angles (i j k : Float) : Float × Float :=
  (normal Number.round (degrees (Number.atan2 j k)),
    normal Number.round (degrees (Number.atan2 i (Number.hypot j k))))

end ToolAxis

namespace Machine

/-- Takes over the coordinates of a command; those it leaves out stay. -/
def setCoordinates (c : Command) : Action Unit := do
  setRegister "X" (c.number 0 ((← get).value "X"))
  setRegister "Y" (c.number 1 ((← get).value "Y"))
  setRegister "Z" (c.number 2 ((← get).value "Z"))

def setToolAxis (c : Command) : Action Unit := do
  match (← get).vars.flag Variable.multiAxis false, c.numeric with
  | true, _ :: _ :: _ :: i :: j :: k :: _ =>
    let (a, b) := ToolAxis.angles i j k
    setRegister "A" a
    setRegister "B" b
  | _, _ => pure ()

def restatePosition : Action Unit := do
  onlyIf ((← get).vars.flag Variable.restate false) do
    flag true ["X", "Y", "Z"]
    removeVariable Variable.restate

/-- Queues the code of a straight move, unless a canned cycle is active. -/
def emitStraight (rapid : Bool) : Action Unit := do
  onlyIf ((← get).active .cycle = []) (emitModal .motion (if rapid then .rapid else .linear))

def isRapid (m : Machine) : Bool := m.vars.text Variable.motion Motion.linear = Motion.rapid

/-- Queues the code of a move from `start` to the present position, straight or
on the circle that was announced. -/
def takePath (start : Point) (rapid : Bool) : Action Unit := do
  let arc ← followCircle start rapid
  onlyIf (!arc) (emitStraight rapid)
  onlyIf rapid (setVariable Variable.motion (.text Motion.linear))
  count fun s => { s with motions := s.motions + 1 }

def queueMotion (start : Point) : Action Unit := do
  restatePosition
  let rapid := (← get).isRapid
  adaptToCycle
  takePath start rapid

def moveTo (c : Command) : Action Unit := do
  if c.numeric.isEmpty then pure ()
  else
    let start := (← get).position
    setCoordinates c
    setToolAxis c
    queueMotion start
    writeBlock
    callRepeated

/-- Makes the next motion rapid; with coordinates that is this one. -/
def moveRapidly (c : Command) : Action Unit := do
  setVariable Variable.motion (.text Motion.rapid)
  moveTo c

def moveToStart (c : Command) : Action Unit := do
  if c.numeric.isEmpty then pure ()
  else
    setVariable Variable.restate (.flag true)
    moveRapidly c

def continueMotion (c : Command) : Action Unit := do
  let last := (← get).last.major
  if last = "goto" || last = "rapid" then moveTo c
  else note .warning "continuation ignored" [atLine c.line, ("after", .text last)]

def homeAxes (c : Command) : List Axis :=
  let selected := [(Axis.z, Text.ofString "z"), (.x, "x"), (.y, "y")].filter
    fun a => c.hasMinor [a.2]
  if selected.isEmpty then [.z, .x, .y] else selected.map Prod.fst

/-- The moves home: the tool axis moves first and alone. -/
def homeMoves : List Axis → List (List Axis)
  | .z :: a :: rest => [[.z], a :: rest]
  | axes => [axes]

def moveHome (axes : List Axis) : Action Unit := do
  emitModal .motion .rapid
  emit .machineCoordinates
  for a in axes do
    let format := (← get).format a.register
    queueNumber format.address format 0
  count fun s => { s with motions := s.motions + 1 }
  writeBlock

/-- Sends axes to machine zero. The position is not known until the next motion
writes it in full. -/
def goHome (c : Command) : Action Unit := do
  for axes in homeMoves (homeAxes c) do
    moveHome axes
  setVariable Variable.restate (.flag true)
  setVariable Variable.motion (.text Motion.linear)

end Machine
end Toolpath
