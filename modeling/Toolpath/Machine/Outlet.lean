import Toolpath.Failure

/-!
# Where a program goes

A program is written line by line. An outlet keeps the lines that it was
handed, and may pass them on to a sink that turns them into octets. It may
refuse a line, and so may the sink behind it.
-/

namespace Toolpath

structure Outlet where
  record : MemorySink := {}
  onward : Option LineSink := none
  flushes : Nat := 0

namespace Outlet

def lines (o : Outlet) : List Text := o.record.lines

def count (o : Outlet) : Nat := o.record.kept.length

def pass (o : Outlet) (line : Text) : Option Failure × Outlet :=
  match o.onward with
  | none => (none, o)
  | some s =>
    let (e, s) := s.writeLine line
    (e.map .sink, { o with onward := some s })

def writeLine (o : Outlet) (line : Text) : Option Failure × Outlet :=
  match o.record.writeLine line with
  | (some reason, record) => (some (.other reason), { o with record })
  | (none, record) => pass { o with record } line

def flush (o : Outlet) : Option Failure × Outlet :=
  match o.onward with
  | none => (none, o)
  | some s =>
    let (e, s) := s.flush
    (e.map .sink, { o with onward := some s, flushes := o.flushes + 1 })

end Outlet
end Toolpath
