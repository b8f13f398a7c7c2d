import Toolpath.Failure
import Toolpath.Log
import Toolpath.Statement.Lexer

/-!
# Sources of commands

Commands come from a program, from a command stream, or from a list. A source
answers one command a request, and tells when it is told to stop.
-/

namespace Toolpath

inductive Source
  | program (l : Lexer)
  | stream (r : StreamReader)
  /-- Commands, and the failure behind the last of them. -/
  | listed (commands : List Command) (ending : Option Failure)

inductive SourceReply
  | command (c : Command)
  | ended
  | cancelled
  | failed (f : Failure)
deriving DecidableEq

def SourceReply.failure? : SourceReply → Option Failure
  | .failed f => some f
  | .cancelled => some .readCancelled
  | _ => none

namespace Source

def lineDetail (line : Int64) : Text × Detail := ("line", .integer line.toInt)

def statementNote (line : Int64) (text : Text) : Note :=
  ⟨.debug, "statement", [lineDetail line, ("text", .text text)]⟩

def commandNote (c : Command) : Note :=
  ⟨.debug, "command", [("major", .text c.major), lineDetail c.line]⟩

def danglingNote (line : Int64) :
    Note := ⟨.debug, "flushing dangling continuation", [lineDetail line]⟩

def ofLexer : LexerReply → SourceReply × List Note
  | .command c text => (.command c, [statementNote c.line text, commandNote c])
  | .dangling c => (.command c, [danglingNote c.line, commandNote c])
  | .ended => (.ended, [])
  | .cancelled => (.cancelled, [])
  | .refused e text => (.failed (.parse e), [statementNote e.line text])
  | .broken line reason => (.failed (.unreadable line reason), [])

def ofStream : StreamReply → SourceReply
  | .command c => .command c
  | .ended => .ended
  | .cancelled => .cancelled
  | .refused e => .failed (.stream e)

/-- The next command. Each time the source looks whether to stop, the answer
is that of `stop`. -/
def next (stop : Nat → Bool) : Source → (SourceReply × List Note) × Source
  | program l =>
    let (reply, l) := l.nextUnless stop
    (ofLexer reply, program l)
  | stream r =>
    let (reply, r) := r.next (stop 0)
    ((ofStream reply, []), stream r)
  | listed commands ending =>
    if stop 0 then ((.cancelled, []), listed commands ending)
    else
      match commands, ending with
      | c :: rest, _ => ((.command c, []), listed rest ending)
      | [], some f => ((.failed f, []), listed [] ending)
      | [], none => ((.ended, []), listed [] none)

/-- The most requests that can still be answered with a command. -/
def bound : Source → Nat
  | program l => l.bound
  | stream r => r.bound
  | listed commands _ => commands.length

/-- Hands the remaining commands to `f`, until the source ends or `f` fails.
Notes are kept the latest first. -/
def drain {σ : Type} (cancelled : Bool) (f : σ → Command → Except Failure Unit × σ) (s : σ)
    (notes : List Note) (src : Source) : (fuel : Nat) → Option Failure × List Note × σ
  | 0 => (none, notes, s)
  | fuel + 1 =>
    match src.next fun _ => cancelled with
    | ((.command c, new), src) =>
      match f s c with
      | (.ok _, s) => drain cancelled f s (new.reverse ++ notes) src fuel
      | (.error e, s) => (some e, new.reverse ++ notes, s)
    | ((reply, new), _) => (reply.failure?, new.reverse ++ notes, s)

end Source

structure Encoded where
  failure : Option Failure
  /-- The digest of a stream that was written to its end. -/
  digest : Text
  writer : StreamWriter
  /-- The latest first. -/
  notes : List Note

def StreamWriter.append (w : StreamWriter) (c : Command) : Except Failure Unit × StreamWriter :=
  match w.write c with
  | (none, w) => (.ok (), w)
  | (some e, w) => (.error (.streamWrite e), w)

def Source.encode (src : Source) (tape : Tape) (cancelled : Bool) : Encoded :=
  match src.drain cancelled StreamWriter.append { tape } [] (src.bound + 1) with
  | (some e, notes, writer) => { failure := some e, digest := [], writer, notes }
  | (none, notes, writer) =>
    match writer.close with
    | (.ok digest, writer) => { failure := none, digest, writer, notes }
    | (.error e, writer) => { failure := some (.streamWrite e), digest := [], writer, notes }

end Toolpath
