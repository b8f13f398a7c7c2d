import Toolpath.Stream.Writer
import Toolpath.Text.Quoted

/-!
# Reading a command stream

The preamble is checked first; then `next` reads one record per call. After
the end, or after a fault, there is nothing more to read. A reader that is
told to stop reads nothing and loses nothing.
-/

namespace Toolpath

inductive StreamError
  /-- Nothing where the preamble should be. -/
  | missing
  | short
  | magic (got : Text)
  | version (got : Nat)
  | flags (got : Nat)
  | record (number : Nat) (fault : Stream.Fault)
  | noMajor (number : Nat)
deriving DecidableEq

namespace StreamError

def reason : StreamError → Text
  | missing => "read preamble: EOF"
  | short => "read preamble: unexpected EOF"
  | magic got => Text.ofString "invalid magic: got " ++ Text.quoted got ++
      ", expected " ++ Text.quoted Stream.magic
  | version got => Text.ofString "unsupported version: got 0x" ++ Text.hexPadded 4 got ++
      ", expected 0x" ++ Text.hexPadded 4 Stream.version
  | flags got => Text.ofString "unsupported flags: 0x" ++ Text.hexPadded 4 got
  | record n _ => Text.ofString "record " ++ Text.ofNat n
  | noMajor n => Text.ofString "record " ++ Text.ofNat n ++ " has no major word"

def headline (e : StreamError) : Text := "invalid command stream: " ++ e.reason

def message (e : StreamError) : Text :=
  match e with
  | record _ fault => e.headline ++ ": " ++ fault.message
  | _ => e.headline

end StreamError

structure StreamReader where
  data : Text
  count : Nat := 0
  /-- The records read, the latest first. -/
  digested : List Text := []
  finished : Bool := false

inductive StreamReply
  | command (c : Command)
  | ended
  | cancelled
  | refused (e : StreamError)
deriving DecidableEq

namespace StreamReader

def littleEndian (low high : UInt8) : Nat := low.toNat + 256 * high.toNat

def ofText (t : Text) : Except StreamError StreamReader :=
  match t with
  | [] => .error .missing
  | a :: b :: c :: d :: v :: v' :: f :: f' :: data =>
    if [a, b, c, d] ≠ Stream.magic then .error (.magic [a, b, c, d])
    else if littleEndian v v' ≠ Stream.version then .error (.version (littleEndian v v'))
    else if littleEndian f f' ≠ 0 then .error (.flags (littleEndian f f'))
    else .ok { data }
  | _ => .error .short

def selfDescription : Nat := 55799

def marks : Cbor.Item → Nat
  | .tagged n content => if n = selfDescription then marks content + 1 else 0
  | _ => 0

def dropHeads : Nat → Text → Text
  | 0, t => t
  | n + 1, t =>
    match Cbor.Head.read t with
    | .ok (_, t) => dropHeads n t
    | .error _ => t

/-- Reads the command at the front of the data, with the octets of its record
that count for the digest and what follows. -/
def readRecord (number : Nat) (data : Text) : Except StreamError (Command × Text × Text) :=
  match Cbor.Item.read data with
  | .error e => .error (.record number (.unreadable e))
  | .ok (x, rest) =>
    match Stream.readCommand x with
    | .error e => .error (.record number e)
    | .ok c =>
      if c.major = [] then .error (.noMajor number)
      else .ok (c, dropHeads (marks x) (data.take (data.length - rest.length)), rest)

def next (r : StreamReader) (cancelled : Bool := false) : StreamReply × StreamReader :=
  if r.finished then (.ended, r)
  else if cancelled then (.cancelled, r)
  else if r.data = [] then (.ended, { r with finished := true })
  else
    match readRecord (r.count + 1) r.data with
    | .error e => (.refused e, { r with finished := true })
    | .ok (c, record, rest) =>
      (.command c, { r with data := rest, count := r.count + 1, digested := record :: r.digested })

def digest (r : StreamReader) : Text := Digest.blake2b r.digested.reverse.flatten

/-- The most calls of `next` that can still answer a command. -/
def bound (r : StreamReader) : Nat := r.data.length

end StreamReader
end Toolpath
