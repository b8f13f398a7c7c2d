import Toolpath.Machine.Motion

/-!
# Carrying out commands

Each verb is an action of the machine. `Machine.dispatch` finds the verb of a
command and carries it out; a failure tells the line and the major word it
came from.
-/

namespace Toolpath

/-- The text of a command: its strings as written, or its minor words, or its
first number. -/
def Command.label (c : Command) : Text :=
  if !c.strings.isEmpty then Text.join " " c.strings
  else if !c.minor.isEmpty then (Text.join " " c.minor).upper
  else (c.numeric.head?.map Number.shortest).getD []

namespace Machine

def remark (title text : Text) : Action Unit :=
  if text.isEmpty then pure () else comment (title ++ text)

def nameProgram (c : Command) : Action Unit := do
  setVariable Variable.partNumber (.text c.label)
  remark "PARTNO " c.label

def nameOperation (c : Command) : Action Unit := do
  setVariable Variable.operation (.text c.label)
  remark "OPERATION " c.label

/-- Starts an operation: no change is carried over. -/
def startOperation (c : Command) : Action Unit := do
  modify fun m => { m with rack := { m.rack with registers := m.rack.registers.clearFlags } }
  note .debug "operation start"
    [atLine c.line, ("operation", .text ((← get).vars.text Variable.operation []))]

def setFeed (c : Command) : Action Unit :=
  match c.numeric with
  | [] => pure ()
  | feed :: _ => setRegister "F" feed

def setMultiAxis (c : Command) : Action Unit :=
  setVariable Variable.multiAxis (.flag !(c.hasMinor ["off"]))

/-- Selects cutter compensation; the code goes out with the next block. -/
def compensate (c : Command) : Action Unit :=
  if c.hasMinor ["left"] then emitModal .cutcom .cutcomLeft
  else if c.hasMinor ["right"] then emitModal .cutcom .cutcomRight
  else if c.hasMinor ["off"] then emitModal .cutcom .cutcomOff
  else pure ()

def setSpeeds (c : Command) : Action Unit := do
  match c.numeric with
  | [] => pure ()
  | speed :: rest =>
    if c.hasMinor ["maxrpm"] then
      setVariable Variable.speedLimit (.float (rest.getLastD speed))
      onlyIf (!rest.isEmpty) (setVariable Variable.spindleSpeed (.float speed))
    else setVariable Variable.spindleSpeed (.float speed)

inductive SpindleState
  | clockwise
  | counter
  | orient
  | off
deriving DecidableEq, Repr

namespace SpindleState

def named (t : Text) : SpindleState :=
  if t = "clw" then clockwise
  else if t = "cclw" then counter
  else if t = "orient" then orient
  else off

def code : SpindleState → Function
  | clockwise => .spindleClockwise
  | counter => .spindleCounter
  | orient => .spindleOrient
  | off => .spindleOff

def turns : SpindleState → Bool
  | clockwise => true
  | counter => true
  | _ => false

end SpindleState

def spindleWord (state : SpindleState) (word : Text) : Action SpindleState := do
  let isOneOf (words : List Text) : Bool := words.contains word
  if isOneOf ["clw", "clockwise"] then
    setVariable Variable.spindleDirection (.text "clw")
    return .clockwise
  else if isOneOf ["cclw", "ccw"] then
    setVariable Variable.spindleDirection (.text "cclw")
    return .counter
  else if isOneOf ["orient"] then return .orient
  else if isOneOf ["off"] then return .off
  else
    onlyIf (isOneOf ["rpm", "sfm", "smm"]) (setVariable Variable.spindleMode (.text word))
    return state

/-- Starts or stops the spindle. A bare speed starts it in the last direction. -/
def runSpindle (c : Command) : Action Unit := do
  setSpeeds c
  let direction := (← get).vars.text Variable.spindleDirection "clw"
  let state ← c.minor.foldlM spindleWord (SpindleState.named direction)
  emitModal .spindle state.code
  let speed := (← get).vars.float Variable.spindleSpeed 0
  onlyIf (state.turns && 0 < speed) (setRegister "S" speed)
  writeBlock

def switchCoolant (c : Command) (kind : Text) : Action Unit := do
  if c.hasMinor ["off"] then emitModal .coolant .coolantOff
  else if c.hasMinor ["mist"] then
    setVariable Variable.coolantKind (.text "mist")
    emitModal .coolant .coolantMist
  else if c.hasMinor ["flood"] then
    setVariable Variable.coolantKind (.text "flood")
    emitModal .coolant .coolantFlood
  else if kind = "mist" then emitModal .coolant .coolantMist
  else if kind = "off" then emitModal .coolant .coolantOff
  else emitModal .coolant .coolantFlood

/-- Starts or stops the coolant. Without a kind it is the last one. -/
def runCoolant (c : Command) : Action Unit := do
  switchCoolant c ((← get).vars.text Variable.coolantKind "flood")
  writeBlock

def enterTool (t : Tool) : Action Unit :=
  modify fun m =>
    if m.tools.any fun u => u.number = t.number then m else { m with tools := m.tools ++ [t] }

def holdsTool (m : Machine) (n : Int64) : Bool :=
  m.vars.flag Variable.skipSameTool false && m.vars.integer Variable.tool (-1) = n.toInt

/-- Changes the tool. The next motion restates the position and its code. -/
def loadTool (c : Command) : Action Unit := do
  match c.numeric with
  | [] => pure ()
  | number :: _ =>
    let n := Number.truncate (Number.round number)
    if (← get).holdsTool n then pure ()
    else
      enterTool { number := n, diameter := c.number 1 0, kind := c.firstMinor }
      setVariable Variable.tool (.integer .plain n.toInt)
      count fun s => { s with toolChanges := s.toolChanges + 1 }
      setRegister "T" (Number.ofInt n.toInt)
      queueRegister "T"
      emit .toolChange
      forget .motion
      setVariable Variable.restate (.flag true)
      writeBlock

def selectTool (c : Command) : Action Unit := do
  match c.numeric with
  | [] => pure ()
  | number :: _ =>
    setRegister "T" (Number.round number)
    queueRegister "T"
    writeBlock

def dwellFormat : NumberFormat := NumberFormat.parse "X\x7b###!000\x7d"

def usualSpeed : Float := 1000

/-- The seconds that a dwell lasts; it may be given in revolutions. -/
def dwellSeconds (c : Command) (amount speed : Float) : Float :=
  Number.abs (if c.hasMinor ["rev"] then amount * 60 / (if speed ≤ 0 then usualSpeed else speed)
    else amount)

def dwell (c : Command) : Action Unit := do
  match c.numeric with
  | [] => pure ()
  | amount :: _ =>
    let seconds := dwellSeconds c amount ((← get).vars.float Variable.spindleSpeed 0)
    emit .dwell
    queueNumber dwellFormat.address dwellFormat seconds
    let spent := (← get).vars.float Variable.dwellTime 0
    setVariable Variable.dwellTime (.float (spent + seconds))
    writeBlock

def switchOff (group : ModalGroup) (f : Function) : Action Unit := do
  let m ← get
  let code := m.active group
  onlyIf (code ≠ [] && code ≠ m.profile.code f) (emitModal group f)

/-- Switches everything off; the end code is left to the footer if there is one. -/
def wrapUp (c : Command) : Action Unit := do
  switchOff .spindle .spindleOff
  switchOff .coolant .coolantOff
  onlyIf (!(← get).profile.templates.enabled) (emit .programEnd)
  setVariable Variable.finished (.flag true)
  note .debug "program finished" [atLine c.line]
  writeBlock

def finish (c : Command) : Action Unit := do
  cancelCycle
  wrapUp c

def perform (v : Verb) (c : Command) : Action Unit :=
  match v with
  | .partNumber => nameProgram c
  | .print => remark [] c.label
  | .nameOperation => nameOperation c
  | .startOperation => startOperation c
  | .feed => setFeed c
  | .rapid => moveRapidly c
  | .goto => moveTo c
  | .circle => announceCircle c
  | .plane => selectPlane c
  | .start => moveToStart c
  | .home => goHome c
  | .continuation => continueMotion c
  | .multiAxis => setMultiAxis c
  | .cutterCompensation => compensate c
  | .spindle => runSpindle c
  | .coolant => runCoolant c
  | .loadTool => loadTool c
  | .selectTool => selectTool c
  | .delay => dwell c
  | .drillHere => drillHere c (.plain c)
  | .deepDrillHere => drillHere c (.deep c)
  | .cycle => repeatCycle c
  | .finish => finish c
  | .ignore => note .debug "command ignored" [atLine c.line, ("major", .text c.major)]
  | .refuse reason => fail (.other reason)

def placeOf (c : Command) : Text :=
  "line " ++ Text.ofInt c.line.toInt ++ ": " ++ c.major.upper

def performAt (v : Verb) (c : Command) : Action Unit :=
  tryCatch (perform v c) fun
    | .failure f => fail (.within (placeOf c) f)
    | .violation w => throw (.violation w)

def skipUnknown (c : Command) : Action Unit := do
  count fun s => { s with unknown := s.unknown + 1 }
  let m ← get
  let suggestion := m.verbs.suggest c.major
  if m.strict then fail (.unknownCommand ⟨c.major, c.line, suggestion⟩)
  else
    note .warning "unknown command skipped"
      [atLine c.line, ("major", .text c.major), ("suggestion", .text suggestion)]

def dispatch (c : Command) : Action Unit := do
  count fun s => { s with commands := s.commands + 1 }
  match (← get).verbs.resolve c with
  | none => skipUnknown c
  | some (v, c) =>
    performAt v c
    onlyIf (!c.isContinuation) (modify fun m => { m with last := c })

end Machine
end Toolpath
