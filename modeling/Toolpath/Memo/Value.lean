import Toolpath.Number.Decimal
import Toolpath.Text.Quoted

/-!
# Remembered values

Values of different kinds that are remembered under a name, or passed to a
drilling cycle. Two values are equal only if they are of one kind; floating
point numbers compare as numbers, so no NaN equals itself, and lists are
never equal.
-/

namespace Toolpath

/-- The integer kinds; equal numbers of different kinds are different values. -/
inductive IntegerKind
  | plain
  | bits32
  | bits64
  | unsigned
deriving DecidableEq, Repr

/-- A drilling cycle: planes are absolute, distances incremental. -/
structure DrillCycle where
  name : Text
  /-- The retract plane. -/
  rtp : Float := 0
  /-- The reference plane. -/
  rfp : Float := 0
  /-- The safety distance. -/
  sdis : Float := 0
  /-- The final depth, absolute and relative to the reference plane. -/
  dp : Float := 0
  dpr : Float := 0
  /-- The first drilling depth, absolute and relative. -/
  fdep : Float := 0
  fdpr : Float := 0
  /-- The amount by which the depth shrinks. -/
  dam : Float := 0
  /-- The dwell times at depth and at the start. -/
  dtb : Float := 0
  dts : Float := 0
  /-- The feed factor of the first depth. -/
  frf : Float := 0
  /-- The tool axis. -/
  axn : Int64 := 0
  oldp : Float := 0
  axs : Int64 := 0
deriving DecidableEq

def DrillCycle.same (a b : DrillCycle) : Bool :=
  a.name = b.name && a.rtp == b.rtp && a.rfp == b.rfp && a.sdis == b.sdis && a.dp == b.dp &&
    a.dpr == b.dpr && a.fdep == b.fdep && a.fdpr == b.fdpr && a.dam == b.dam && a.dtb == b.dtb &&
    a.dts == b.dts && a.frf == b.frf && a.axn == b.axn && a.oldp == b.oldp && a.axs == b.axs

inductive Value
  | float (x : Float)
  /-- A number of single precision. -/
  | single (x : Float)
  | integer (kind : IntegerKind) (i : Int)
  | text (t : Text)
  | flag (b : Bool)
  | nothing
  | list (ts : List Text)
  | cycle (c : DrillCycle)
deriving DecidableEq

namespace Value

/-- Strict equality: one kind, and equal there. -/
def same : Value → Value → Bool
  | float x, float y => x == y
  | single x, single y => x == y
  | integer k i, integer l j => k = l && i = j
  | text s, text t => s = t
  | flag a, flag b => a = b
  | nothing, nothing => true
  | cycle a, cycle b => a.same b
  | _, _ => false

def sameKind : Value → Value → Bool
  | float _, float _ => true
  | single _, single _ => true
  | integer k _, integer l _ => k = l
  | text _, text _ => true
  | flag _, flag _ => true
  | nothing, nothing => true
  | list _, list _ => true
  | cycle _, cycle _ => true
  | _, _ => false

def zeroed : Value → Value
  | float _ => float 0
  | single _ => single 0
  | integer k _ => integer k 0
  | text _ => text []
  | flag _ => flag false
  | nothing => nothing
  | list _ => list []
  | cycle _ => cycle { name := [] }

/-- A value as a cycle parameter: three decimals, quoted text, `1` or `0`. -/
def render : Value → Text
  | float x => Number.fixed 3 x
  | single x => Number.fixed 3 x
  | integer _ i => Text.ofInt i
  | text t => Text.quoted t
  | flag b => if b then "1" else "0"
  | nothing => []
  | list ts => Text.ofString "[" ++ Text.join " " ts ++ "]"
  | cycle _ => []

end Value
end Toolpath
