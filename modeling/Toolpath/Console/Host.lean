import Toolpath.Text.Basic

/-!
# The place where the console works

`Host` is what a command needs of its surroundings: its standard input, files,
directories and two streams of text to the operator. `Disk` is a host of its own that keeps files
in memory, below one directory.
-/

namespace Toolpath

inductive Opened
  | contents (t : Text)
  | directory
deriving DecidableEq

/-- Surroundings of a command. A failure is told by its reason. -/
class Host (m : Type → Type) where
  standardInput : m Text
  openFile : Text → m (Except Text Opened)
  /-- Makes a file empty, or makes a new one. -/
  createFile : Text → m (Except Text Unit)
  /-- Gives a file that was made its contents. -/
  fillFile : Text → Text → m Unit
  /-- Makes a directory and those above it; the reason names the operation. -/
  makeDirectories : Text → m (Except Text Unit)
  absent? : Text → m (Option Text)
  print : Text → m Unit
  /-- Tells the operator something that is not part of the result. -/
  tell : Text → m Unit

inductive DiskFault
  | missing
  | notDirectory
  | isDirectory
  | taken
deriving DecidableEq, Repr

def DiskFault.reason : DiskFault → Text
  | missing => "no such file or directory"
  | notDirectory => "not a directory"
  | isDirectory => "is a directory"
  | taken => "file exists"

structure Disk where
  /-- Files with their contents, and directories without. -/
  entries : List (List Text × Option Text) := []
  typed : Text := []
  printed : Text := []
  told : Text := []

namespace Disk

def at? (d : Disk) (place : List Text) : Option (Option Text) :=
  if place.isEmpty then some none else d.entries.lookup place

def put (d : Disk) (place : List Text) (entry : Option Text) : Disk :=
  { d with entries := d.entries.filter (·.1 ≠ place) ++ [(place, entry)] }

/-- Follows the segments of a path. Only the last place need not be there. -/
def follow (d : Disk) (place : List Text) : List Text → Except DiskFault (List Text)
  | [] => .ok place
  | segment :: rest =>
    match d.at? place with
    | none => .error .missing
    | some (some _) => .error .notDirectory
    | some none =>
      if segment.isEmpty || segment = "." then follow d place rest
      else if segment = ".." then
        if place.isEmpty then .error .missing else follow d place.dropLast rest
      else follow d (place ++ [segment]) rest

/-- The place that a path names. Nothing is known outside the topmost directory. -/
def resolve (d : Disk) (path : Text) : Except DiskFault (List Text) :=
  if path.isEmpty || path.head? = some Text.slash then .error .missing
  else d.follow [] (Text.split Text.slash path)

def find (d : Disk) (path : Text) : Except DiskFault Opened :=
  (d.resolve path).bind fun place =>
    match d.at? place with
    | none => .error .missing
    | some none => .ok .directory
    | some (some t) => .ok (.contents t)

def newPlace (d : Disk) (path : Text) : Except DiskFault (List Text) :=
  (d.resolve path).bind fun place =>
    match d.at? place.dropLast with
    | none => .error .missing
    | some (some _) => .error .notDirectory
    | some none => .ok place

def create (d : Disk) (path : Text) : Except DiskFault Disk :=
  (d.newPlace path).bind fun place =>
    match d.at? place with
    | some none => .error .isDirectory
    | _ => .ok (d.put place (some []))

def fill (d : Disk) (path contents : Text) : Disk :=
  match d.resolve path with
  | .ok place => d.put place (some contents)
  | .error _ => d

def makeDirectory (d : Disk) (path : Text) : Except DiskFault Disk :=
  (d.newPlace (path.dropWhileBack (· = Text.slash))).bind fun place =>
    match d.at? place with
    | some (some _) => .error .taken
    | some none => .ok d
    | none => .ok (d.put place none)

def unmade (path : Text) (f : DiskFault) : Text :=
  "mkdir " ++ path ++ ": " ++ f.reason

def above (path : Text) : Text :=
  ((path.dropWhileBack (· = Text.slash)).dropWhileBack (· ≠ Text.slash))

def makeAll (d : Disk) (path : Text) : (fuel : Nat) → Except Text Disk
  | 0 => .ok d
  | fuel + 1 =>
    match d.find path with
    | .ok .directory => .ok d
    | .ok (.contents _) => .error (unmade path .notDirectory)
    | .error _ => do
      let d ← if (above path).isEmpty then .ok d else makeAll d (above path) fuel
      (d.makeDirectory path).mapError (unmade path)

def addFile (d : Disk) (path contents : Text) : Disk :=
  let ready := if (above path).isEmpty then .ok d else d.makeAll (above path) path.length
  match ready with
  | .ok d => d.fill path contents
  | .error _ => d

def ofFiles (files : List (Text × Text)) : Disk :=
  files.foldl (fun d f => d.addFile f.1 f.2) {}

def files (d : Disk) : List (Text × Text) :=
  d.entries.filterMap fun e => e.2.map fun t => (Text.join [Text.slash] e.1, t)

def changedSince (d old : Disk) : List (Text × Text) :=
  d.files.filter fun f => !old.files.contains f

end Disk

instance : Host (StateM Disk) where
  standardInput := do return (← get).typed
  openFile path := do return ((← get).find path).mapError DiskFault.reason
  createFile path := do
    match (← get).create path with
    | .ok d => do set d; return .ok ()
    | .error e => return .error e.reason
  fillFile path contents := modify fun d => d.fill path contents
  makeDirectories path := do
    match (← get).makeAll path (path.length + 1) with
    | .ok d => do set d; return .ok ()
    | .error e => return .error e
  absent? path := do
    match (← get).find path with
    | .ok _ => return none
    | .error e => return some e.reason
  print t := modify fun d => { d with printed := d.printed ++ t }
  tell t := modify fun d => { d with told := d.told ++ t }

end Toolpath
