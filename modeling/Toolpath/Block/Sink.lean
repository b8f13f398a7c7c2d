import Toolpath.Digest

/-!
# Where lines go

A tape takes octets; each write is taken whole or refused. A line sink
collects lines in a buffer of 4096 octets in front of a tape, counts lines
and octets, and keeps a digest of the lines that went through. Some tapes also
take a text that the buffer cannot hold as it is, when nothing is buffered.
Once a write was refused the sink stays broken. A memory sink keeps whole lines.
-/

namespace Toolpath

/-- A receiver of octets. The `i`-th write is refused when `refuses i` says so. -/
structure Tape where
  refuses : Nat → Bool := fun _ => false
  reason : Text := "disk full"
  /-- Whether texts longer than a buffer need not go through one. -/
  takesTexts : Bool := false
  writes : Nat := 0
  taken : List Text := []

namespace Tape

def limited (n : Nat) : Tape := { refuses := fun i => n ≤ i }

def contents (p : Tape) : Text := p.taken.reverse.flatten

def size (p : Tape) : Nat := p.taken.foldl (fun n t => n + t.length) 0

/-- Offers octets; the answer is whether they were taken. -/
def write (p : Tape) (t : Text) : Bool × Tape :=
  if p.refuses p.writes then (false, { p with writes := p.writes + 1 })
  else (true, { p with writes := p.writes + 1, taken := t :: p.taken })

end Tape

inductive LineEnding
  | lf
  | crlf
deriving DecidableEq, Repr

def Text.lf : Text := [10]

def Text.crlf : Text := [13, 10]

def LineEnding.text : LineEnding → Text
  | lf => .lf
  | crlf => .crlf

instance : Coe LineEnding Text := ⟨LineEnding.text⟩

structure SinkError where
  line : Nat
  reason : Text
deriving DecidableEq

def SinkError.message (e : SinkError) : Text :=
  "write output line " ++ Text.ofNat e.line ++ ": " ++ e.reason

structure LineSink where
  tape : Tape := {}
  ending : Text := .lf
  buffer : Text := []
  broken : Option Text := none
  lines : Nat := 0
  bytes : Nat := 0
  /-- The lines that went through, the latest first. -/
  digested : List Text := []

namespace LineSink

def capacity : Nat := 4096

def drain (s : LineSink) : LineSink :=
  if s.broken.isSome || s.buffer.isEmpty then s
  else match s.tape.write s.buffer with
    | (true, tape) => { s with tape, buffer := [] }
    | (false, tape) => { s with tape, broken := some tape.reason }

def forward (s : LineSink) (t : Text) : LineSink :=
  match s.tape.write t with
  | (true, tape) => { s with tape, bytes := s.bytes + t.length }
  | (false, tape) => { s with tape, broken := some tape.reason }

/-- Copies a text into the buffer, draining it whenever the text does not fit.
What was copied before a failure counts as bytes. -/
def copy (s : LineSink) (t : Text) : (fuel : Nat) → LineSink
  | 0 => s
  | fuel + 1 =>
    let free := capacity - s.buffer.length
    if s.broken.isSome then s
    else if t.length ≤ free then
      { s with buffer := s.buffer ++ t, bytes := s.bytes + t.length }
    else if s.buffer.isEmpty && s.tape.takesTexts then s.forward t
    else
      let s := { s with buffer := s.buffer ++ t.take free, bytes := s.bytes + free }
      copy s.drain (t.drop free) fuel

def error? (s : LineSink) : Option SinkError := s.broken.map fun reason => ⟨s.lines, reason⟩

def writeLine (s : LineSink) (line : Text) : Option SinkError × LineSink :=
  let data := line ++ s.ending
  let s := copy { s with lines := s.lines + 1 } data (data.length + 1)
  match s.error? with
  | some e => (some e, s)
  | none => (none, { s with digested := data :: s.digested })

def flush (s : LineSink) : Option SinkError × LineSink := (s.drain.error?, s.drain)

def digest (s : LineSink) : Text := Digest.blake2b s.digested.reverse.flatten

end LineSink

/-- A sink that keeps whole lines. The `i`-th line is refused when `refuses i` says so. -/
structure MemorySink where
  refuses : Nat → Bool := fun _ => false
  reason : Text := "disk full"
  calls : Nat := 0
  /-- The lines kept, the latest first. -/
  kept : List Text := []

namespace MemorySink

def lines (m : MemorySink) : List Text := m.kept.reverse

/-- The answer is why the line was refused. -/
def writeLine (m : MemorySink) (line : Text) : Option Text × MemorySink :=
  if m.refuses m.calls then (some m.reason, { m with calls := m.calls + 1 })
  else (none, { m with calls := m.calls + 1, kept := line :: m.kept })

end MemorySink
end Toolpath
