import Toolpath.Log
import Toolpath.Machine.Outlet
import Toolpath.Machine.Verb
import Toolpath.Memo.Cycle

/-!
# The state of a machine

A machine holds what has been told it and not been written yet, and what its
controller knows already: registers, modal codes, variables, tools and cycle
definitions. An action changes the machine and may stop; what it did before
it stopped remains done.
-/

namespace Toolpath

/-- Codes of one group exclude each other, and one stays active until the next. -/
inductive ModalGroup
  | motion
  | spindle
  | coolant
  | cutcom
  | cycle
  | plane
deriving DecidableEq, Repr

def ModalGroup.name : ModalGroup → Text
  | motion => "motion"
  | spindle => "spindle"
  | coolant => "coolant"
  | cutcom => "cutcom"
  | cycle => "cycle"
  | plane => "plane"

namespace Variable

def partNumber : Text := "PARTNO"

def motion : Text := "MOTION"

def spindleSpeed : Text := "SPINDLE_RPM"

def spindleDirection : Text := "SPINDLE_DEF"
def spindleMode : Text := "SPINDLE_MODE"
def speedLimit : Text := "MAX_RPM"

def coolantKind : Text := "COOLANT_DEF"
def tool : Text := "TOOL"

def skipSameTool : Text := "TOOLCHG_IGNORE_SAME"

def restate : Text := "FORCE_XYZ"
def multiAxis : Text := "MULTAX"
def operation : Text := "OPERATION"

def dwellTime : Text := "MTIME"
def finished : Text := "FINISHED"

def cycle : Text := "CYCLE"

def cycleOnce : Text := "CYCLE_ONCE"

def plane : Text := "PLANE"

end Variable

namespace Motion

def linear : Text := "linear"

def rapid : Text := "rapid"

end Motion

structure Tool where
  number : Int64
  diameter : Float
  kind : Text
deriving DecidableEq

structure Stats where
  commands : Nat := 0
  motions : Nat := 0
  toolChanges : Nat := 0
  cycles : Nat := 0
  unknown : Nat := 0
deriving DecidableEq, Repr

structure Point where
  x : Float
  y : Float
  z : Float
deriving DecidableEq

inductive Winding
  | clockwise
  | counter
deriving DecidableEq, Repr

def Winding.code : Winding → Function
  | clockwise => .arcClockwise
  | counter => .arcCounter

structure Circle where
  center : Point
  axis : Point
  radius : Float
  /-- The sense, when it does not follow from the axis. -/
  winding : Option Winding
  line : Int64
deriving DecidableEq

structure Machine where
  profile : Profile
  verbs : Verbs := .standard
  strict : Bool := false
  occasion : Occasion
  rack : Rack
  writer : BlockWriter
  outlet : Outlet
  modal : Memo := {}
  vars : Memo := {}
  tools : List Tool := []
  stats : Stats := {}
  cycles : List CycleMemo := []
  circle : Option Circle := none
  /-- The last command that was carried out and was no continuation. -/
  last : Command := {}
  /-- What each note of the machine tells first. -/
  subject : List (Text × Detail) := []
  /-- The latest first. -/
  log : List Note := []

abbrev Action := EStateM Stop Machine

namespace Machine

/-- The registers that blocks write when they change, in the order of a block. -/
def trackedNames : List Text := ["X", "Y", "Z", "I", "J", "K", "R", "A", "B", "C", "F", "S"]

def initialVariables : Memo :=
  ⟨[(Variable.motion, .text Motion.linear), (Variable.spindleDirection, .text "clw"),
    (Variable.coolantKind, .text "flood"), (Variable.spindleSpeed, .float 0),
    (Variable.tool, .integer .plain (-1)), (Variable.plane, .text "xy")]⟩

def initialRegisters (p : Profile) : Except Violation Registers := do
  let rs ← p.configure {}
  trackedNames.foldlM Registers.ensure rs

/-- A machine at its start. Nothing is flagged, so that only what changes is written. -/
def start (profile : Profile) (occasion : Occasion) (outlet : Outlet) :
    Except Violation Machine := do
  let rs ← initialRegisters profile
  let writer ← trackedNames.foldlM
      (fun w name => w.track (some (.register name))) profile.blockWriter
  let (writer, rack) := writer.resetAll { registers := rs }
  let rs ← rack.registers.ensure "T"
  let rack := ({ rack with registers := rs }).flag false (.register "T")
  return { profile, occasion, rack, writer, outlet, vars := initialVariables }

def note (level : Level) (message : Text) (details : List (Text × Detail)) : Action Unit :=
  modify fun m => { m with log := ⟨level, message, m.subject ++ details⟩ :: m.log }

def atLine (line : Int64) : Text × Detail := ("line", .integer line.toInt)

def fail {α : Type} (f : Failure) : Action α := throw (.failure f)

def onlyIf (b : Bool) (a : Action Unit) : Action Unit := if b then a else pure ()

def demand {α : Type} : Except Violation α → Action α
  | .ok a => pure a
  | .error v => throw (.violation v)

def count (f : Stats → Stats) : Action Unit := modify fun m => { m with stats := f m.stats }

def setVariable (key : Text) (v : Value) : Action Unit :=
  modify fun m => { m with vars := m.vars.set key v }

def removeVariable (key : Text) : Action Unit :=
  modify fun m => { m with vars := m.vars.remove key }

def forget (group : ModalGroup) : Action Unit :=
  modify fun m => { m with modal := m.modal.remove group.name }

def value (m : Machine) (name : Text) : Float :=
  ((m.rack.registers.find? name).map Numeric.value).getD 0

def format (m : Machine) (name : Text) : NumberFormat :=
  ((m.rack.registers.find? name).map Numeric.format).getD Registers.coordinateFormat

def position (m : Machine) : Point := ⟨m.value "X", m.value "Y", m.value "Z"⟩

def setRegister (name : Text) (x : Float) : Action Unit := do
  match (← get).rack.registers.find? name with
  | some n =>
    let n ← demand (n.set x)
    modify fun m => { m with rack := m.rack.set (.register name) (.numeric n) }
  | none => pure ()

def flag (b : Bool) (names : List Text) : Action Unit :=
  modify fun m => { m with rack := names.foldl (fun r name => r.flag b (.register name)) m.rack }

def queue (q : Queued) : Action Unit := modify fun m => { m with writer := m.writer.queue q }

def queueWord (w : Word) : Action Unit := queue (.once w)

def queueNumber (address : Text) (format : NumberFormat) (x : Float) : Action Unit := do
  let n ← demand (Numeric.new address format x false)
  queueWord (.numeric n)

def queueRegister (name : Text) : Action Unit := queue (.shared (.register name))

def noteNoCode (name : Text) : Action Unit :=
  note .debug "function code not configured" [("code", .text name)]

def emitNamed (name : Text) : Action Unit := do
  let code := (← get).profile.codeNamed name
  if code.isEmpty then noteNoCode name else queue (.code { function := name, text := code })

def emit (f : Function) : Action Unit := emitNamed f.name

/-- Queues the code of this name unless it is active in the group already; the
answer is whether it was queued. -/
def emitModalNamed (group name : Text) : Action Bool := do
  let m ← get
  let code := m.profile.codeNamed name
  if code.isEmpty then
    noteNoCode name
    return false
  let (changed, modal) := m.modal.update group (.text code)
  set { m with modal }
  onlyIf changed (queue (.code { function := name, group := some group, text := code }))
  return changed

def emitModal (group : ModalGroup) (f : Function) : Action Unit :=
  discard (emitModalNamed group.name f.name)

def activeNamed (m : Machine) (group : Text) : Text := m.modal.text group []

def active (m : Machine) (group : ModalGroup) : Text := m.activeNamed group.name

def writeLine (line : Text) : Action Unit := do
  let m ← get
  let (e, outlet) := m.outlet.writeLine line
  set { m with outlet }
  match e with
  | some f => fail f
  | none => pure ()

def writeBlock : Action Unit := do
  let m ← get
  let (line, writer, rack) := m.writer.assemble m.rack true
  set { m with writer, rack }
  match line with
  | some line => writeLine line
  | none => pure ()

def comment (text : Text) : Action Unit := do
  writeLine ((← get).writer.comment text)

def flush : Action Unit := do
  let m ← get
  let (e, outlet) := m.outlet.flush
  set { m with outlet }
  match e with
  | some f => fail f
  | none => pure ()

def cycleMemo? (m : Machine) (name : Text) :
    Option CycleMemo := m.cycles.find? fun c => c.name = name

/-- What is remembered of a cycle, from its first use on. -/
def openCycle (name : Text) : Action CycleMemo := do
  match (← get).cycleMemo? name with
  | some c => return c
  | none =>
    let c ← demand (CycleMemo.new name)
    modify fun m => { m with cycles := m.cycles ++ [c] }
    return c

def keepCycle (c : CycleMemo) : Action Unit :=
  modify fun m => { m with cycles := m.cycles.map fun d => if d.name = c.name then c else d }

/-- Writes a cycle call as a block, with its parameters only when they differ
from those of the last full call. -/
def callCycle (name : Text) (params : Parameters) : Action Unit := do
  count fun s => { s with cycles := s.cycles + 1 }
  let c ← openCycle name
  keepCycle (c.after params false)
  queueWord (.code (c.line params).1)
  writeBlock
  keepCycle (c.after params true)

def resetCycles (name : Text) : Action Unit :=
  modify fun m => { m with
    cycles := m.cycles.map fun c => if name.isEmpty || c.name = name then c.reset else c }

end Machine
end Toolpath
