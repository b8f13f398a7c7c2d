import Toolpath.Block.Sink
import Toolpath.Stream.Record

/-!
# Writing a command stream

A stream is a preamble of eight octets and one record per command. The
preamble goes out with the first command, or at the end of an empty stream.
The digest of a stream is that of its records.
-/

namespace Toolpath

namespace Stream

def magic : Text := "APCL"

def version : Nat := 1

def preambleLength : Nat := 8

def preamble : Text := magic ++ [1, 0, 0, 0]

end Stream

structure StreamWriter where
  tape : Tape := {}
  /-- Whether the preamble was offered to the tape. -/
  started : Bool := false
  count : Nat := 0
  /-- The records written, the latest first. -/
  digested : List Text := []

inductive StreamWriteError
  | preamble (reason : Text)
  | command (number : Nat) (reason : Text)
deriving DecidableEq

def StreamWriteError.message : StreamWriteError → Text
  | preamble reason => Text.ofString "write preamble: " ++ reason
  | command n reason =>
    Text.ofString "write command " ++ Text.ofNat n ++ ": " ++ reason

namespace StreamWriter

def writePreamble (w : StreamWriter) : Option StreamWriteError × StreamWriter :=
  if w.started then (none, w)
  else
    let (taken, tape) := w.tape.write Stream.preamble
    (if taken then none else some (.preamble w.tape.reason), { w with started := true, tape })

def write (w : StreamWriter) (c : Command) : Option StreamWriteError × StreamWriter :=
  match w.writePreamble with
  | (some e, w) => (some e, w)
  | (none, w) =>
    let record := Stream.record c
    match w.tape.write record with
    | (true, tape) =>
      (none, { w with tape, count := w.count + 1, digested := record :: w.digested })
    | (false, tape) => (some (.command (w.count + 1) w.tape.reason), { w with tape })

def digest (w : StreamWriter) : Text := Digest.blake2b w.digested.reverse.flatten

def close (w : StreamWriter) : Except StreamWriteError Text × StreamWriter :=
  match w.writePreamble with
  | (some e, w) => (.error e, w)
  | (none, w) => (.ok w.digest, w)

end StreamWriter
end Toolpath
