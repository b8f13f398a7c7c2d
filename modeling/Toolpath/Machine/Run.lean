import Toolpath.Machine.Perform
import Toolpath.Source

/-!
# Running a program

A run writes the header, carries out the commands of a source one by one, and
writes the footer. A run that is told to stop writes the cancel marker instead
of the footer. A `Transcript` tells what each turn of the run was given and
how many lines had been written before it.
-/

namespace Toolpath

structure Cancellation where
  /-- Whether the run is told before it asks for the `i`-th command. -/
  before : Nat → Bool := fun _ => false
  /-- Whether the source is told when it looks for the `j`-th time while it
  reads the `i`-th command. -/
  reading : Nat → Nat → Bool := fun _ _ => false
  cause : Text := Failure.stopped

def Cancellation.never : Cancellation := {}

def Cancellation.atOnce : Cancellation := { before := fun _ => true, reading := fun _ _ => true }

structure Turn where
  written : Nat
  /-- What was answered; nothing when there were no more commands. -/
  command : Option Command
deriving DecidableEq

structure Transcript where
  /-- The latest first. -/
  turns : List Turn
  stop : Option Stop
  machine : Machine

namespace Machine

def writeTemplate (lines : List Text) : Action Unit := do
  let m ← get
  if m.profile.templates.enabled then
    for line in lines do
      writeLine (m.profile.fill m.occasion line)

def summary (m : Machine) : List (Text × Detail) :=
  [("commands", .integer m.stats.commands), ("motions", .integer m.stats.motions),
    ("tools", .integer m.stats.toolChanges), ("blocks", .integer m.writer.blocks),
    ("unknown", .integer m.stats.unknown)]

def complete : Action Unit := do
  writeTemplate (← get).profile.templates.footer
  note .info "program written" (summary (← get))
  flush

def cancel (cause : Text) : Action Unit := do
  note .warning "processing cancelled"
    [("commands", .integer (← get).stats.commands), ("cause", .text cause)]
  let marker := (← get).profile.cancelMarker
  if !marker.isEmpty then writeLine marker
  flush
  fail (.runCancelled cause)

def after (turns : List Turn) (a : Action Unit) (m : Machine) : Transcript :=
  match a.run m with
  | .ok _ m => ⟨turns, none, m⟩
  | .error e m => ⟨turns, some e, m⟩

def turn (m : Machine) (c : Option Command) : Turn := ⟨m.outlet.count, c⟩

def addNotes (m : Machine) (notes : List Note) : Machine := { m with log := notes.reverse ++ m.log }

def runFrom (halt : Cancellation) (i : Nat) (turns : List Turn) (src : Source) (m : Machine) :
    (fuel : Nat) → Transcript
  | 0 => ⟨turns, none, m⟩
  | fuel + 1 =>
    if halt.before i then after turns (cancel Failure.stopped) m
    else
      let ((reply, notes), src) := src.next (halt.reading i)
      let ended := m.turn none :: turns
      let start := m.addNotes notes
      match reply with
      | .ended => after ended complete start
      | .cancelled => after ended (cancel halt.cause) start
      | .failed f => ⟨ended, some (.failure f), start⟩
      | .command c =>
        let turns := m.turn (some c) :: turns
        match (dispatch c).run start with
        | .ok _ m => runFrom halt (i + 1) turns src m fuel
        | .error e m => ⟨turns, some e, m⟩

def run (m : Machine) (src : Source) (halt : Cancellation) : Transcript :=
  match (writeTemplate m.profile.templates.header).run m with
  | .error e m => ⟨[], some e, m⟩
  | .ok _ m => runFrom halt 0 [] src m (src.bound + 1)

end Machine
end Toolpath
