import Toolpath.Contract
import Toolpath.Machine.Suggestion
import Toolpath.Statement.Command
import Toolpath.Text.Blank

/-!
# Verbs

What a machine can be told to do, and the table of major words that tell it.
Words are kept in lower case.
-/

namespace Toolpath

inductive Verb
  | partNumber
  | print
  | nameOperation
  | startOperation
  | feed
  | rapid
  | goto
  | circle
  | plane
  | start
  | home
  | continuation
  | multiAxis
  | cutterCompensation
  | spindle
  | coolant
  | loadTool
  | selectTool
  | delay
  | drillHere
  | deepDrillHere
  | cycle
  | finish
  /-- A word of the design office that asks for nothing. -/
  | ignore
  | refuse (reason : Text)
deriving DecidableEq

structure Verbs where
  entries : List (Text × Verb) := []
deriving DecidableEq

namespace Verbs

def normalWord (word : Text) : Text := word.trim.lower

def put (word : Text) (verb : Verb) : List (Text × Verb) → List (Text × Verb)
  | [] => [(word, verb)]
  | e :: es => if e.1 = word then (word, verb) :: es else e :: put word verb es

def register (vs : Verbs) (word : Text) (verb : Option Verb) : Except Violation Verbs := do
  Contract.precondition.require (!(normalWord word).isEmpty) "major word must not be empty"
  let verb ← requirePresent "handler" verb
  return ⟨put (normalWord word) verb vs.entries⟩

def find? (vs : Verbs) (major : Text) : Option Verb := vs.entries.lookup major.lower

def words (vs : Verbs) : List Text := Text.sort (vs.entries.map Prod.fst)

def suggest (vs : Verbs) (major : Text) : Text := Suggestion.find major vs.words

def idleWords : List Text :=
  ["catmat", "catprocess", "catproduct", "channel", "clrsrf", "line", "machin", "opdata",
    "part_open", "point", "pptable", "program", "tloff", "tlon", "toolinf", "toolpath_type",
    "units"]

def workingWords : List (Text × Verb) :=
  [("partno", .partNumber), ("pprint", .print), ("op_name", .nameOperation),
    ("start_op", .startOperation), ("fedrat", .feed), ("rapid", .rapid), ("goto", .goto),
    ("circle", .circle), ("plane", .plane), ("from", .start), ("gohome", .home),
    (Command.continuationWord, .continuation), ("multax", .multiAxis),
    ("cutcom", .cutterCompensation), ("tlcomp", .cutterCompensation), ("spindl", .spindle),
    ("coolnt", .coolant), ("loadtl", .loadTool), ("toolno", .selectTool), ("delay", .delay),
    ("cycle81", .drillHere), ("cycle83", .deepDrillHere), ("cycle", .cycle), ("fini", .finish)]

def standard : Verbs := ⟨workingWords ++ idleWords.map fun w => (w, .ignore)⟩

/-- A command written without a slash, such as `PARTNO BRACKET`: its first word
is the major word, and the rest is its first string. -/
def splitMajor (c : Command) : Option Command :=
  (Text.cut? Text.space c.major).map fun (word, rest) =>
    { c with major := word, strings := rest.trim.upper :: c.strings }

def resolve (vs : Verbs) (c : Command) : Option (Verb × Command) :=
  match vs.find? c.major with
  | some v => some (v, c)
  | none => (splitMajor c).bind fun c => (vs.find? c.major).map fun v => (v, c)

end Verbs
end Toolpath
