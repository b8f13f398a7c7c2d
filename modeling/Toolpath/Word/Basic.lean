import Toolpath.Word.Numeric
import Toolpath.Word.Transliteration

/-!
# Words of a block

A block is made of words: numeric words, remarks and counters. `Word.token`
reads a word for output. A modal word that is not flagged gives nothing; a
modal numeric word loses its flag when it is written, and a counter advances.
-/

namespace Toolpath

/-- A counter, such as the block number. It steps on each time it is written. -/
structure Counter where
  address : Text
  modal : Bool := false
  changed : Bool := true
  value : Int64
  start : Int64
  step : Int64
  closing : Text := []
deriving DecidableEq

namespace Counter

def new (address : Text) (start step : Int64) : Except Violation Counter := do
  Contract.precondition.require (step != 0) "sequence step must not be zero"
  return { address, value := start, start, step }

def set (c : Counter) (value : Int64) : Counter :=
  { c with changed := c.changed || value != c.value, value }

def increment (c : Counter) : Counter := { c with value := c.value + c.step, changed := true }

def restart (c : Counter) (value : Int64) : Counter := { c with value, changed := true }

def reset (c : Counter) : Counter := c.restart c.start

def render (c : Counter) : Text := c.address ++ Text.ofInt c.value.toInt ++ c.closing

end Counter

structure Remark where
  text : Text
  changed : Bool := true
  opening : Text := "("
  closing : Text := ")"
  transliterate : Bool := false
  /-- The most characters that are written; none or less is no limit. -/
  maxLength : Int := 0
deriving DecidableEq

namespace Remark

def setText (r : Remark) (text : Text) : Remark :=
  { r with changed := r.changed || text != r.text, text }

/-- The first `n` characters; a stray octet is cut to a replacement character. -/
def firstChars (n : Nat) (t : Text) : Text :=
  ((Text.symbols t).take n).flatMap fun r => Text.ofChar r.char

def body (r : Remark) : Text :=
  let t := if r.transliterate then Transliteration.latin r.text else r.text
  if 0 < r.maxLength && r.maxLength < Text.symbolCount t then firstChars r.maxLength.toNat t else t

def render (r : Remark) : Text := r.opening ++ r.body ++ r.closing

end Remark

inductive Word
  | numeric (n : Numeric)
  | remark (r : Remark)
  | counter (c : Counter)
deriving DecidableEq

namespace Word

def code (t : Text) : Word := .remark { text := t, opening := [], closing := [] }

def address : Word → Text
  | numeric n => n.address
  | remark _ => []
  | counter c => c.address

def modal : Word → Bool
  | numeric n => n.modal
  | remark _ => false
  | counter c => c.modal

def changed : Word → Bool
  | numeric n => n.changed
  | remark r => r.changed
  | counter c => c.changed

def shouldOutput (w : Word) : Bool := w.changed || !w.modal

def flagged (b : Bool) : Word → Word
  | numeric n => numeric { n with changed := b }
  | remark r => remark { r with changed := b }
  | counter c => counter { c with changed := b }

def render : Word → Text
  | numeric n => n.render
  | remark r => r.render
  | counter c => c.render

def written : Word → Word
  | numeric n => numeric (if n.modal then { n with changed := false } else n)
  | remark r => remark r
  | counter c => counter c.increment

def token (w : Word) : Text × Word :=
  if w.shouldOutput then (w.render, w.written) else ([], w)

def forcedToken (w : Word) : Text × Word :=
  if w.shouldOutput then w.token else (w.flagged true).token

end Word
end Toolpath
