import Toolpath.Word.Registers

/-!
# Block assembly

A block writer tracks words and queues words. A block is one line: the queued
words, whatever their flags say, then the tracked words that are flagged,
separated, and with a block number in front when blocks are numbered. When
there is no word there is no block, and no number is used.
-/

namespace Toolpath

structure Numbering where
  enabled : Bool := true
  address : Text := "N"
  start : Int64 := 10
  step : Int64 := 10
deriving DecidableEq

structure CommentStyle where
  opening : Text := "("
  closing : Text := ")"
  maxLength : Int := 0
  transliterate : Bool := false
deriving DecidableEq

def CommentStyle.semicolon : CommentStyle := { opening := "; ", closing := [] }

def CommentStyle.render (s : CommentStyle) (text : Text) : Text :=
  Remark.render { text, opening := s.opening, closing := s.closing, maxLength := s.maxLength
                  transliterate := s.transliterate }

/-- The code of a function. A modal one is active in a group from then on. -/
structure Code where
  function : Text
  group : Option Text := none
  text : Text
deriving DecidableEq

/-- A queued word: one of the rack, one made for a single block, or a code. -/
inductive Queued
  | shared (ref : WordRef)
  | once (w : Word)
  | code (c : Code)
deriving DecidableEq

inductive Origin
  | queued (q : Queued)
  | tracked (ref : WordRef)
deriving DecidableEq

structure Token where
  origin : Origin
  text : Text
deriving DecidableEq

structure Block where
  number : Option Text := none
  tokens : List Token := []
deriving DecidableEq

def Block.line (separator : Text) (b : Block) : Text :=
  Text.join separator (b.number.toList ++ b.tokens.map Token.text)

structure BlockWriter where
  tracked : List WordRef := []
  pending : List Queued := []
  number : Counter
  numbered : Bool
  separator : Text
  comments : CommentStyle
  /-- The blocks written, the latest first. -/
  written : List Block := []
deriving DecidableEq

namespace BlockWriter

/-- A writer; a step of zero stands for the usual step. -/
def new (numbering : Numbering) (separator : Text) (comments : CommentStyle) : BlockWriter :=
  { number :=
      { address := numbering.address, value := numbering.start, start := numbering.start
        step := if numbering.step = 0 then 10 else numbering.step }
    numbered := numbering.enabled
    separator, comments }

def track (w : BlockWriter) (ref : Option WordRef) : Except Violation BlockWriter := do
  let ref ← requirePresent "word" ref
  return if w.tracked.contains ref then w else { w with tracked := w.tracked ++ [ref] }

def untrack (w : BlockWriter) (refs : List WordRef) : BlockWriter :=
  { w with tracked := w.tracked.filter fun r => !refs.contains r }

def queue (w : BlockWriter) (q : Queued) : BlockWriter := { w with pending := w.pending ++ [q] }

def push (w : BlockWriter) (ref : Option WordRef) : Except Violation BlockWriter := do
  let ref ← requirePresent "word" ref
  return w.queue (.shared ref)

def resetAll (w : BlockWriter) (rack : Rack) : BlockWriter × Rack :=
  ({ w with pending := [] }, w.tracked.foldl (fun r ref => r.flag false ref) rack)

def queuedText (rack : Rack) : Queued → Text × Rack
  | .shared ref => rack.emit Word.forcedToken ref
  | .once w => (w.forcedToken.1, rack)
  | .code c => ((Word.code c.text).forcedToken.1, rack)

def trackedText (rack : Rack) (ref : WordRef) : Text × Rack :=
  match rack.get? ref with
  | some w => if w.changed then rack.emit Word.token ref else ([], rack)
  | none => ([], rack)

def tokens {α : Type} (origin : α → Origin) (read : Rack → α → Text × Rack) (rack : Rack) :
    List α → List Token × Rack
  | [] => ([], rack)
  | a :: rest =>
    let (t, rack) := read rack a
    let (ts, rack) := tokens origin read rack rest
    (⟨origin a, t⟩ :: ts, rack)

def takeNumber (w : BlockWriter) : Text × BlockWriter :=
  let (t, n) := (Word.counter w.number).token
  (t, match n with
    | .counter c => { w with number := c }
    | _ => w)

def assemble (w : BlockWriter) (rack : Rack) (withNumber : Bool) :
    Option Text × BlockWriter × Rack :=
  let (queued, rack) := tokens .queued queuedText rack w.pending
  let (flagged, rack) := tokens .tracked trackedText rack w.tracked
  let w := { w with pending := [] }
  let parts := (queued ++ flagged).filter (!·.text.isEmpty)
  if parts.isEmpty then (none, w, rack)
  else
    let (number, w) :=
      if withNumber && w.numbered then
        let (t, w) := w.takeNumber
        (some t, w)
      else (none, w)
    let block : Block := { number, tokens := parts }
    (some (block.line w.separator), { w with written := block :: w.written }, rack)

def numberLine (w : BlockWriter) : Option Text × BlockWriter :=
  if !w.numbered then (none, w)
  else
    let (t, w) := w.takeNumber
    (some t, { w with written := { number := some t } :: w.written })

def blocks (w : BlockWriter) : Nat := w.written.length

def comment (w : BlockWriter) (text : Text) : Text := w.comments.render text

def nextNumber (w : BlockWriter) : Int64 := w.number.value

def setNumber (w : BlockWriter) (n : Int64) : BlockWriter := { w with number := w.number.restart n }

def trackedWords (w : BlockWriter) (rack : Rack) (b : Bool) : List Word :=
  (w.tracked.filterMap rack.get?).filter fun word => word.changed = b

end BlockWriter
end Toolpath
