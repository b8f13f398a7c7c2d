import Toolpath.Block.Sink
import Toolpath.Block.Writer

/-!
# Controller profiles

What is particular to one machine controller: the formats of its registers,
its function codes, how blocks are numbered, how comments look, and the lines
around a program.
-/

namespace Toolpath

structure RegisterFormat where
  format : Text
  modal : Bool
deriving DecidableEq

structure BlockNumbering where
  enabled : Bool := true
  address : Text := "N"
  start : Int := 10
  increment : Int := 10
deriving DecidableEq

inductive CommentKind
  | parentheses
  | semicolon
  | both
deriving DecidableEq, Repr

structure Comments where
  kind : CommentKind := .parentheses
  opening : Text := "("
  closing : Text := ")"
  semicolonOpening : Text := ";"
  maxLength : Int := 128
  transliterate : Bool := false
deriving DecidableEq

structure Templates where
  enabled : Bool := true
  header : List Text := []
  footer : List Text := ["M30"]
deriving DecidableEq

/-- How canned cycles are written: as a call with named parameters, or as a
code that stays active. -/
inductive CycleStyle
  | call
  | code
deriving DecidableEq, Repr

inductive Function
  | rapid
  | linear
  | spindleClockwise
  | spindleCounter
  | spindleOff
  | spindleOrient
  | coolantFlood
  | coolantMist
  | coolantOff
  | toolChange
  | dwell
  | programStop
  | optionalStop
  | programEnd
  | drill
  | peckDrill
  | cycleCancel
  | cutcomLeft
  | cutcomRight
  | cutcomOff
  | arcClockwise
  | arcCounter
  | planeXY
  | planeZX
  | planeYZ
  | machineCoordinates
deriving DecidableEq, Repr

namespace Function

def name : Function → Text
  | rapid => "motion_rapid"
  | linear => "motion_linear"
  | spindleClockwise => "spindle_cw"
  | spindleCounter => "spindle_ccw"
  | spindleOff => "spindle_off"
  | spindleOrient => "spindle_orient"
  | coolantFlood => "coolant_flood"
  | coolantMist => "coolant_mist"
  | coolantOff => "coolant_off"
  | toolChange => "tool_change"
  | dwell => "dwell"
  | programStop => "program_stop"
  | optionalStop => "optional_stop"
  | programEnd => "program_end"
  | drill => "cycle_drill"
  | peckDrill => "cycle_peck"
  | cycleCancel => "cycle_cancel"
  | cutcomLeft => "cutcom_left"
  | cutcomRight => "cutcom_right"
  | cutcomOff => "cutcom_off"
  | arcClockwise => "arc_cw"
  | arcCounter => "arc_ccw"
  | planeXY => "plane_xy"
  | planeZX => "plane_zx"
  | planeYZ => "plane_yz"
  | machineCoordinates => "machine_coords"

def usualCode : Function → Text
  | rapid => "G0"
  | linear => "G1"
  | spindleClockwise => "M3"
  | spindleCounter => "M4"
  | spindleOff => "M5"
  | spindleOrient => "M19"
  | coolantFlood => "M8"
  | coolantMist => "M7"
  | coolantOff => "M9"
  | toolChange => "M6"
  | dwell => "G4"
  | programStop => "M0"
  | optionalStop => "M1"
  | programEnd => "M30"
  | drill => "G81"
  | peckDrill => "G83"
  | cycleCancel => "G80"
  | cutcomLeft => "G41"
  | cutcomRight => "G42"
  | cutcomOff => "G40"
  | arcClockwise => "G2"
  | arcCounter => "G3"
  | planeXY => "G17"
  | planeZX => "G18"
  | planeYZ => "G19"
  | machineCoordinates => "G53"

def all : List Function :=
  [rapid, linear, spindleClockwise, spindleCounter, spindleOff, spindleOrient, coolantFlood,
    coolantMist, coolantOff, toolChange, dwell, programStop, optionalStop, programEnd, drill,
    peckDrill, cycleCancel, cutcomLeft, cutcomRight, cutcomOff, arcClockwise, arcCounter, planeXY,
    planeZX, planeYZ, machineCoordinates]

end Function

/-- A profile; the fields that are not given are those of a generic controller. -/
structure Profile where
  /-- The profile that is still to be extended, if any. -/
  parentName : Text := []
  name : Text := "generic"
  version : Text := "1.0.0"
  machine : Text := []
  separator : Text := " "
  lineEnding : LineEnding := .lf
  cancelMarker : Text := "(PROCESSING CANCELLED BY USER)"
  cycleStyle : CycleStyle := .call
  /-- Whether arcs up to a half circle are written with a radius. -/
  arcRadius : Bool := false
  registers : List (Text × RegisterFormat) := []
  numbering : BlockNumbering := {}
  comments : Comments := {}
  codes : List (Text × Text) := Function.all.map fun f => (f.name, f.usualCode)
  templates : Templates := {}
deriving DecidableEq

structure Moment where
  year : Nat
  month : Nat
  day : Nat
  hour : Nat
  minute : Nat
  second : Nat
deriving DecidableEq, Repr

namespace Moment

def padded (width n : Nat) : Text :=
  let t := Text.ofNat n
  List.replicate (width - t.length) Text.zero ++ t

def render (m : Moment) : Text :=
  padded 4 m.year ++ "-" ++ padded 2 m.month ++ "-" ++
    padded 2 m.day ++ " " ++ padded 2 m.hour ++ ":" ++
    padded 2 m.minute ++ ":" ++ padded 2 m.second

end Moment

structure Occasion where
  name : Text
  inputFile : Text
  time : Moment
deriving DecidableEq

namespace Profile

def codeNamed (p : Profile) (name : Text) : Text := (p.codes.lookup name).getD []

def code (p : Profile) (f : Function) : Text := p.codeNamed f.name

/-- Sets an entry of a table with distinct keys. -/
def setEntry {α : Type} (key : Text) (value : α) : List (Text × α) → List (Text × α)
  | [] => [(key, value)]
  | e :: es => if e.1 = key then (key, value) :: es else e :: setEntry key value es

def sorted {α : Type} (entries : List (Text × α)) : List (Text × α) :=
  entries.mergeSort fun a b => Text.le a.1 b.1

def configure (p : Profile) (rs : Registers) : Except Violation Registers :=
  (sorted p.registers).foldlM
    (fun rs e => rs.configure e.1 (NumberFormat.parse e.2.format) e.2.modal) rs

def commentStyle (p : Profile) : CommentStyle :=
  let c := p.comments
  let style (opening closing : Text) : CommentStyle :=
    { opening, closing, maxLength := c.maxLength, transliterate := c.transliterate }
  match c.kind with
  | .parentheses => style c.opening c.closing
  | .semicolon => style c.semicolonOpening []
  | .both => style c.opening (c.closing ++ Text.space :: c.semicolonOpening.trim)

def blockWriter (p : Profile) : BlockWriter :=
  BlockWriter.new
    { enabled := p.numbering.enabled, address := p.numbering.address
      start := Int64.ofInt p.numbering.start, step := Int64.ofInt p.numbering.increment }
    p.separator p.commentStyle

def braced (t : Text) : Text := Text.openBrace :: t ++ [Text.closeBrace]

def fill (p : Profile) (o : Occasion) (line : Text) : Text :=
  Text.replace
    [(braced "name", o.name), (braced "machine", p.machine), (braced "inputFile", o.inputFile),
      (braced "dateTime", o.time.render)] line

end Profile
end Toolpath
