import Toolpath.Profile.Parse

/-!
# File paths

Paths are segments between slashes. A clean path has no empty segment, no
segment `.`, and segments `..` only at the front of a relative path.
-/

namespace Toolpath.Path

def dot : Text := "."

def up : Text := ".."

def isRooted (p : Text) : Bool := p.head? = some Text.slash

/-- Steps into a segment of a path; `reached` are the segments so far, the last first. -/
def step (rooted : Bool) (reached : List Text) (segment : Text) : List Text :=
  if segment.isEmpty || segment = dot then reached
  else if segment = up then
    match reached with
    | [] => if rooted then [] else [up]
    | last :: before => if last = up then up :: reached else before
  else segment :: reached

def clean (p : Text) : Text :=
  let rooted := isRooted p
  let body := Text.join [Text.slash] ((Text.split Text.slash p).foldl (step rooted) []).reverse
  if rooted then Text.slash :: body else if body.isEmpty then dot else body

def base (p : Text) : Text :=
  if p.isEmpty then dot
  else
    let stripped := p.dropWhileBack (· = Text.slash)
    if stripped.isEmpty then [Text.slash]
    else (stripped.reverse.takeWhile (· ≠ Text.slash)).reverse

def directory (p : Text) : Text := clean (p.reverse.dropWhile (· ≠ Text.slash)).reverse

def extension (p : Text) : Text :=
  let last := (p.reverse.takeWhile (· ≠ Text.slash)).reverse
  if last.contains Text.point then
    Text.point :: (last.reverse.takeWhile (· ≠ Text.point)).reverse
  else []

def join (dir name : Text) : Text :=
  if dir.isEmpty then (if name.isEmpty then [] else clean name)
  else clean (dir ++ Text.slash :: name)

def standardInput : Text := "-"

def display (p : Text) : Text := if p = standardInput then "stdin" else base p

def stem (p : Text) : Text :=
  if p = standardInput then "stdin" else (base p).dropBack (extension (base p))

def programName (p : Text) : Text := (stem p).upper

def streamExtension : Text := ".aptcl"

def isStream (p : Text) : Bool := Text.equalFold (extension p) streamExtension

def outputExtension : Text := ".nc"

def documentFormat (p : Text) : DocumentFormat :=
  if [Text.ofString ".yaml", Text.ofString ".yml"].contains (extension p).lower then .yaml
  else .json

end Toolpath.Path
