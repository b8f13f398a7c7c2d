import Toolpath.Machine.State

/-!
# Drilling cycles

A cycle drills at the present position once, or at every position to come
until it is cancelled. Controllers take cycles in two styles: as a call with
named parameters after each motion, or as a code that stays active and turns
each motion into a hole.
-/

namespace Toolpath

namespace DrillCycle

def plainName : Text := "CYCLE81"

def deepName : Text := "CYCLE83"

def isDeep (c : DrillCycle) : Bool := c.name = deepName

def commonParameters (c : DrillCycle) : Parameters :=
  [("RTP", .float c.rtp), ("RFP", .float c.rfp), ("SDIS", .float c.sdis), ("DP", .float c.dp),
    ("DPR", .float c.dpr)]

def deepParameters (c : DrillCycle) : Parameters :=
  [("FDEP", .float c.fdep), ("FDPR", .float c.fdpr), ("DAM", .float c.dam), ("DTB", .float c.dtb),
    ("DTS", .float c.dts), ("FRF", .float c.frf), ("AXN", .integer .plain c.axn.toInt),
    ("OLDP", .float c.oldp), ("AXS", .integer .plain c.axs.toInt)]

def parameters (c : DrillCycle) : Parameters :=
  c.commonParameters ++ if c.isDeep then c.deepParameters else []

/-- The depth of one peck; zero when the hole is drilled at once. -/
def peck (c : DrillCycle) : Float := if c.fdpr == 0 then c.dam else c.fdpr

def code (c : DrillCycle) : Function := if c.isDeep then .peckDrill else .drill

def plain (c : Command) : DrillCycle :=
  { name := plainName, rtp := c.number 0 0, rfp := c.number 1 0, sdis := c.number 2 2
    dp := c.number 3 0, dpr := c.number 4 0 }

def deep (c : Command) : DrillCycle :=
  { plain c with
    name := deepName, fdep := c.number 5 0, fdpr := c.number 6 0, dam := c.number 7 0
    dtb := c.number 8 0, dts := c.number 9 0, frf := c.number 10 1
    axn := Number.truncate (c.number 11 3), oldp := c.number 12 0
    axs := Number.truncate (c.number 13 0) }

/-- A cycle given by depth and clearance below the plane `Z0`; it retracts to
the height at which it starts. -/
def shortPlain (c : Command) (height : Float) : DrillCycle :=
  { name := plainName, rtp := height, sdis := c.number 1 2, dp := -Number.abs (c.number 0 0) }

def shortDeep (c : Command) (height : Float) : DrillCycle :=
  { shortPlain c height with
    name := deepName, fdpr := Number.abs (c.number 2 0), frf := 1, axn := 3 }

end DrillCycle

namespace Machine

def clearCycle : Action Unit := do
  forget .cycle
  forget .motion
  removeVariable Variable.cycle
  removeVariable Variable.cycleOnce

def queueCanned (c : DrillCycle) : Action Unit := do
  forget .cycle
  emitModal .cycle c.code
  forget .motion
  count fun s => { s with cycles := s.cycles + 1 }
  let format := (← get).format "Z"
  let depth ← demand (Numeric.new "Z" format c.dp false)
  let reference ← demand (Numeric.new "R" format (c.rfp + c.sdis) false)
  queueWord (.numeric depth)
  queueWord (.numeric reference)
  onlyIf (c.isDeep && c.peck != 0) (queueNumber "Q" format c.peck)

def markOnce (once : Bool) : Action Unit :=
  if once then setVariable Variable.cycleOnce (.flag true) else removeVariable Variable.cycleOnce

/-- Activates a canned cycle. A cycle that is active already is not restated. -/
def startCanned (c : DrillCycle) (once : Bool) : Action Unit := do
  let m ← get
  let (differs, vars) := m.vars.update Variable.cycle (.cycle c)
  set { m with vars }
  markOnce once
  onlyIf (differs || m.active .cycle = [] || once) (queueCanned c)
  onlyIf once writeBlock

def startCalled (c : DrillCycle) (once : Bool) : Action Unit :=
  if once then callCycle c.name c.parameters else setVariable Variable.cycle (.cycle c)

/-- Activates a cycle: it drills one hole at once, or one at each position to come. -/
def startCycle (c : DrillCycle) (once : Bool) : Action Unit := do
  match (← get).profile.cycleStyle with
  | .code => startCanned c once
  | .call => startCalled c once

/-- Makes a motion fit the active canned cycle: a single hole is over, and a
repeated one keeps the depth out of the block. -/
def adaptToCycle : Action Unit := do
  let m ← get
  if m.active .cycle = [] then pure ()
  else if m.vars.flag Variable.cycleOnce false then
    emit .cycleCancel
    clearCycle
    flag true ["Z"]
  else flag false ["Z"]

def callRepeated : Action Unit := do
  let m ← get
  match m.profile.cycleStyle, m.vars.cycle? Variable.cycle with
  | .call, some c => callCycle c.name c.parameters
  | _, _ => pure ()

def cancelCycle : Action Unit := do
  let m ← get
  match m.profile.cycleStyle with
  | .call =>
    removeVariable Variable.cycle
    resetCycles []
  | .code =>
    if m.active .cycle = [] then pure ()
    else
      emit .cycleCancel
      clearCycle
      setVariable Variable.restate (.flag true)
      writeBlock

def setCycleFeed (c : Command) (i : Nat) : Action Unit :=
  match c.numeric[i]? with
  | some feed => setRegister "F" feed
  | none => pure ()

def repeatCycle (c : Command) : Action Unit := do
  let height := (← get).value "Z"
  if c.hasMinor ["off"] then cancelCycle
  else if c.hasMinor ["drill"] then
    setCycleFeed c 2
    startCycle (.shortPlain c height) false
  else if c.hasMinor ["deep"] then
    setCycleFeed c 3
    startCycle (.shortDeep c height) false
  else note .warning "cycle type not supported" [atLine c.line, ("minor", .texts c.minor)]

def drillHere (c : Command) (cycle : DrillCycle) : Action Unit :=
  if c.numeric.isEmpty then pure () else startCycle cycle true

end Machine
end Toolpath
