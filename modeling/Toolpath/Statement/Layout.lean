import Toolpath.Statement.Scan
import Toolpath.Text.Blank

/-!
# Physical lines and statements

A program is cut into physical lines. A line is blank, possibly but for a
comment; or it ends in a `$` and is joined to the line behind it; or it
completes a statement.
-/

namespace Toolpath

inductive LineKind
  | blank
  /-- The statement goes on behind this text. -/
  | joined (body : Text)
  | complete (body : Text)
deriving DecidableEq

structure LineContent where
  kind : LineKind
  commented : Bool
deriving DecidableEq

namespace Layout

def byteOrderMark : Text := [0xEF, 0xBB, 0xBF]

def stripReturn (t : Text) : Text := t.dropBack [Text.carriageReturn]

/-- The physical lines of a text; there is none behind the last line end. -/
def physicalLines (source : Text) : List Text :=
  let pieces := Text.split Text.newline source
  (if pieces.getLast? = some [] then pieces.dropLast else pieces).map stripReturn

def terminatedLines (source : Text) : List Text :=
  (Text.split Text.newline source).dropLast.map stripReturn

def kindOf (t : Text) : LineKind :=
  let body := t.trimRight
  match body.getLast? with
  | none => .blank
  | some b =>
    if b = Text.dollar && !Scan.insideQuotes body (body.length - 1) then
      .joined (Text.trimRight body.dropLast)
    else .complete body

def content (line : Text) : LineContent :=
  match Scan.beforeComment? .closed line with
  | some front => ⟨kindOf front, true⟩
  | none => ⟨kindOf line, false⟩

end Layout
end Toolpath
