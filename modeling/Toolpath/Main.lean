import Std.Time.Format
import Toolpath.Console.App

/-!
# The program

The console on the files of the machine it runs on. Only what needs the world
is here: reading and writing files, the clock, and waiting for a change.
-/

namespace Toolpath

namespace Outside

def string (t : Text) : String := (String.fromUTF8? ⟨(Text.scrub t).toArray⟩).getD ""

def bytes (t : Text) : ByteArray := ⟨t.toArray⟩

def reason : IO.Error → Text
  | .noFileOrDirectory _ _ _ => "no such file or directory"
  | .permissionDenied _ _ _ => "permission denied"
  | .inappropriateType _ _ details => (Text.ofString details).lower
  | .alreadyExists _ _ _ => "file exists"
  | e => Text.ofString (toString e)

def attempt {α : Type} (a : IO α) : IO (Except Text α) := do
  match ← a.toBaseIO with
  | .ok x => return .ok x
  | .error e => return .error (reason e)

def openFile (path : Text) : IO (Except Text Opened) := do
  match ← attempt (IO.FS.Handle.mk (string path) .read) with
  | .error e => return .error e
  | .ok h =>
    match ← attempt h.readBinToEnd with
    | .ok data => return .ok (.contents data.data.toList)
    | .error _ => return .ok .directory

partial def readAll (stream : IO.FS.Stream) (acc : ByteArray) : IO ByteArray := do
  let chunk ← stream.read 65536
  if chunk.isEmpty then return acc else readAll stream (acc ++ chunk)

def now : IO Moment := do
  let t ← Std.Time.PlainDateTime.now
  return ⟨t.year.toInt.toNat, t.month.val.toNat, t.day.val.toNat, t.hour.val.toNat,
    t.minute.val.toNat, t.second.val.toNat⟩

end Outside

instance : Host IO where
  standardInput := do return (← Outside.readAll (← IO.getStdin) ByteArray.empty).data.toList
  openFile := Outside.openFile
  createFile path := Outside.attempt (IO.FS.writeBinFile (Outside.string path) ByteArray.empty)
  fillFile path contents := IO.FS.writeBinFile (Outside.string path) (Outside.bytes contents)
  makeDirectories path := do
    match ← Outside.attempt (IO.FS.createDirAll (Outside.string path)) with
    | .ok _ => return .ok ()
    | .error e => return .error (Text.ofString "mkdir " ++ path ++ ": " ++ e)
  absent? path := do
    match ← Outside.openFile path with
    | .ok _ => return none
    | .error e => return some e
  print t := do (← IO.getStdout).write (Outside.bytes t)
  tell t := do (← IO.getStderr).write (Outside.bytes t)

namespace Outside

def contents (path : Text) : IO (Option Opened) := do return (← openFile path).toOption

/-- Does a watched job again each time its input has changed and is quiet. -/
partial def keepWatching (w : App.Watch) (seen : Option Opened) : IO Unit := do
  IO.sleep 100
  let found ← contents w.job.input
  if found = seen || found.isNone then keepWatching w seen
  else
    IO.sleep 100
    if (← contents w.job.input) = found then
      w.translate
      keepWatching w found
    else keepWatching w seen

def isSet (name : String) : IO Bool := do return (← IO.getEnv name).any (!·.isEmpty)

end Outside
end Toolpath

open Toolpath in
def main (args : List String) : IO UInt32 := do
  let stdin ← IO.getStdin
  let stdout ← IO.getStdout
  let stderr ← IO.getStderr
  let plain ← Outside.isSet "NO_COLOR"
  let tellColor := (← stderr.isTty) && !plain
  let terminal ← stdout.isTty
  let ending ← App.main
    { arguments := args.map Text.ofString, interactive := ← stdin.isTty, terminalOutput := terminal
      debug := ← Outside.isSet "APTPOST_DEBUG", printColor := terminal && !plain, tellColor
      now := ← Outside.now }
  match ending.failure, ending.watched with
  | some f, _ =>
    stderr.write (Outside.bytes (f.report (tellColor && !ending.noColor)))
    return 1
  | none, some w =>
    Outside.keepWatching w (← Outside.contents w.job.input)
    return 0
  | none, none => return 0
