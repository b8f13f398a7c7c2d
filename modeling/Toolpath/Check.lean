import Toolpath.Machine.Verb
import Toolpath.Source

/-!
# Checking a program

A program is read without writing anything: motions without coordinates and
the first statement that is none are errors, and major words that no verb
answers to are warnings.
-/

namespace Toolpath

structure Issue where
  line : Int64
  major : Text := []
  message : Text
  /-- Whether the program can still be written. -/
  warning : Bool := false
deriving DecidableEq

namespace Issue

def level (i : Issue) : Text := if i.warning then "warning" else "error"

def render (i : Issue) : Text :=
  "line " ++ Text.ofInt i.line.toInt ++ ": " ++ i.level ++
    ": " ++ i.major.upper ++ ": " ++ i.message

end Issue

structure Report where
  commands : Nat := 0
  /-- In the order of the program. -/
  issues : List Issue := []
deriving DecidableEq

namespace Report

def errors (r : Report) : Nat := (r.issues.filter fun i => !i.warning).length

def warnings (r : Report) : Nat := r.issues.length - r.errors

def add (r : Report) : Option Issue → Report
  | some i => { r with issues := r.issues ++ [i] }
  | none => r

end Report

namespace Check

def fewCoordinates (c : Command) : Issue :=
  { line := c.line, major := c.major
    message := "needs at least 2 coordinates, got " ++ Text.ofNat c.numeric.length }

def unknown (vs : Verbs) (c : Command) : Issue :=
  { line := c.line, major := c.major, warning := true
    message := "unknown command" ++ UnknownCommand.didYouMean (vs.suggest c.major) }

def isKnown (vs : Verbs) (c : Command) : Bool :=
  (vs.find? c.major).isSome ||
    (Text.cut? Text.space c.major).any fun (word, _) => (vs.find? word).isSome

/-- What is wrong with a command. A bare rapid only announces a motion. -/
def command (vs : Verbs) (c : Command) : Option Issue :=
  if c.major = "goto" then
    if c.numeric.length < 2 then some (fewCoordinates c) else none
  else if c.major = "rapid" then
    if c.numeric.length = 1 then some (fewCoordinates c) else none
  else if isKnown vs c then none
  else some (unknown vs c)

def examine (vs : Verbs) (r : Report) (c : Command) : Except Failure Unit × Report :=
  (.ok (), ({ r with commands := r.commands + 1 }).add (command vs c))

/-- Reads a source to its end. A statement that is none ends it with an issue;
any other failure is left to the caller. -/
def source (vs : Verbs) (src : Source) (cancelled : Bool) : Option Failure × List Note × Report :=
  match src.drain cancelled (examine vs) {} [] (src.bound + 1) with
  | (some f, notes, r) =>
    match f.root with
    | .parse e => (none, notes, r.add (some { line := e.line, message := e.reason }))
    | _ => (some f, notes, r)
  | (none, notes, r) => (none, notes, r)

end Check
end Toolpath
