import Toolpath.Console.Path
import Toolpath.Failure

/-!
# Jobs

A job is an input and where its program goes. A single input may go anywhere;
several inputs go next to themselves or into one directory, and no two of
them to the same file.
-/

namespace Toolpath

structure Job where
  input : Text
  /-- The file to write; empty for the standard output. -/
  output : Text
deriving DecidableEq

namespace Job

def outputOf (directory input : Text) : Text :=
  Path.join (if directory.isEmpty then Path.directory input else directory)
    (Path.stem input ++ Path.outputExtension)

def usage (message : Text) (details : Text) : Complaint := { topic := "usage", message, details }

def clash (previous input output : Text) : Complaint :=
  usage (previous ++ " and " ++ input ++ " would both be written to " ++
    output) []

def planOnto (directory : Text) (planned : List Job) : List Text → Except Complaint (List Job)
  | [] => .ok planned
  | input :: rest =>
    let output := outputOf directory input
    if input = Path.standardInput then .error (usage "stdin can only be translated on its own" [])
    else
      match planned.find? fun j => j.output = output with
      | some j => .error (clash j.input input output)
      | none => planOnto directory (planned ++ [⟨input, output⟩]) rest

def needsDirectory (inputs : List Text) (output : Text) : Bool :=
  inputs.length ≠ 1 && !output.isEmpty

/-- Pairs each input with its output. `unmade` tells why the output directory
could not be made. -/
def plan (inputs : List Text) (output : Text) (unmade : Option Text) :
    Except Complaint (List Job) :=
  match inputs with
  | [input] => .ok [⟨input, if output = Path.standardInput then [] else output⟩]
  | inputs =>
    match unmade with
    | some reason =>
      .error (usage (Text.ofString "--output must be a directory when translating " ++
        Text.ofNat inputs.length ++ " files") reason)
    | none => planOnto output [] inputs

end Job
end Toolpath
