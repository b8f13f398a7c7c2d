import Toolpath.Statement.Layout
import Toolpath.Statement.Parse

/-!
# Reading a program command by command

A lexer holds the physical lines still to come and the text of a statement
that is not complete yet. `next` reads lines until one completes a command.
The reader of commands may be told to stop between two lines: then nothing is
read and nothing is lost.
-/

namespace Toolpath

structure Telemetry where
  lines : Nat := 0
  blank : Nat := 0
  comments : Nat := 0
  joined : Nat := 0
  commands : Nat := 0
  continuations : Nat := 0
deriving DecidableEq, Repr

structure Lexer where
  first : Int64 := 1
  line : Int64 := 0
  rest : List Text := []
  /-- What reading reports behind the last line, when it is not the end. -/
  broken : Option Text := none
  /-- The beginning of a statement that goes on in the next line. -/
  pending : Text := []
  finished : Bool := false
  telemetry : Telemetry := {}
deriving DecidableEq

inductive LexerReply
  /-- A command and the statement it was read from. -/
  | command (c : Command) (text : Text)
  | dangling (c : Command)
  | ended
  | cancelled
  /-- A statement that is none, and its text. -/
  | refused (e : ParseError) (text : Text)
  | broken (line : Int64) (reason : Text)
deriving DecidableEq

namespace Lexer

def ofText (source : Text) (first : Int64 := 1) : Lexer :=
  { first, line := first - 1, rest := Layout.physicalLines source }

/-- A lexer for a text behind which reading fails. An unfinished last line is lost. -/
def ofBrokenText (source reason : Text) (first : Int64 := 1) : Lexer :=
  { first, line := first - 1, rest := Layout.terminatedLines source, broken := some reason }

def count (l : Lexer) (f : Telemetry → Telemetry) : Lexer := { l with telemetry := f l.telemetry }

def countCommand (l : Lexer) (c : Command) : Lexer :=
  l.count fun t => { t with
    commands := t.commands + 1
    continuations := if c.isContinuation then t.continuations + 1 else t.continuations }

/-- Takes the next physical line off the source. The first line may carry a byte order mark. -/
def advance (l : Lexer) (raw : Text) (rest : List Text) : Text × Lexer :=
  let line := l.line + 1
  let text := if line = l.first then raw.dropFront Layout.byteOrderMark else raw
  (text, { l with line, rest, telemetry := { l.telemetry with lines := l.telemetry.lines + 1 } })

def completed (l : Lexer) (body : Text) : Text :=
  if l.pending = [] then body else l.pending ++ body.trimLeft

/-- Reads one physical line; nothing is answered when it completes no command. -/
def readLine (l : Lexer) (raw : Text) (rest : List Text)
    (number? : Text → Option Float := Parameter.number?) : Option LexerReply × Lexer :=
  let (text, l) := l.advance raw rest
  let content := Layout.content text
  let l := if content.commented then l.count fun t => { t with comments := t.comments + 1 } else l
  match content.kind with
  | .blank => (none, l.count fun t => { t with blank := t.blank + 1 })
  | .joined body =>
    let l := { l with pending := l.pending ++ body ++ [Text.space] }
    (none, l.count fun t => { t with joined := t.joined + 1 })
  | .complete body =>
    let statement := l.completed body
    let l := { l with pending := [] }
    match Command.parse statement l.line number? with
    | .ok c => (some (.command c statement), l.countCommand c)
    | .error e => (some (.refused e statement), l)

def finish (l : Lexer) (number? : Text → Option Float := Parameter.number?) : LexerReply × Lexer :=
  match l.broken with
  | some reason => (.broken (l.line + 1) reason, l)
  | none =>
    let text := l.pending.trim
    let l := { l with finished := true, pending := [] }
    if text = [] then (.ended, l)
    else
      let c := Command.withParameters Command.continuationWord text l.line number?
      (.dangling c, l.countCommand c)

/-- Reads the lines to come until a command is complete. Before each line the
`i`-th call of `stop` says whether to stop there. -/
def readUntil (stop : Nat → Bool) (i : Nat) (l : Lexer) (lines : List Text)
    (number? : Text → Option Float := Parameter.number?) : LexerReply × Lexer :=
  match lines with
  | [] => if stop i then (.cancelled, { l with rest := [] }) else
    finish { l with rest := [] } number?
  | raw :: rest =>
    if stop i then (.cancelled, { l with rest := raw :: rest })
    else
      match l.readLine raw rest number? with
      | (some reply, l) => (reply, l)
      | (none, l) => readUntil stop (i + 1) l rest number?

def nextUnless (stop : Nat → Bool) (l : Lexer)
    (number? : Text → Option Float := Parameter.number?) : LexerReply × Lexer :=
  if l.finished then (if stop 0 then .cancelled else .ended, l)
  else readUntil stop 0 l l.rest number?

def next (l : Lexer) (cancelled : Bool := false)
    (number? : Text → Option Float := Parameter.number?) : LexerReply × Lexer :=
  nextUnless (fun _ => cancelled) l number?

/-- The most calls of `next` that can still answer a command. -/
def bound (l : Lexer) : Nat := l.rest.length + 1

inductive Interruption
  | cancelled
  | refused (e : ParseError)
  | broken (line : Int64) (reason : Text)
deriving DecidableEq

def collect (cancelled : Bool) (acc : List Command) (l : Lexer) (fuel : Nat)
    (number? : Text → Option Float := Parameter.number?) :
    List Command × Option Interruption × Lexer :=
  match fuel with
  | 0 => (acc.reverse, none, l)
  | fuel + 1 =>
    match l.next cancelled number? with
    | (.command c _, l) => collect cancelled (c :: acc) l fuel number?
    | (.dangling c, l) => collect cancelled (c :: acc) l fuel number?
    | (.ended, l) => (acc.reverse, none, l)
    | (.cancelled, l) => (acc.reverse, some .cancelled, l)
    | (.refused e _, l) => (acc.reverse, some (.refused e), l)
    | (.broken n reason, l) => (acc.reverse, some (.broken n reason), l)

def all (l : Lexer) (cancelled : Bool := false)
    (number? : Text → Option Float := Parameter.number?) :
    List Command × Option Interruption × Lexer :=
  collect cancelled [] l (l.bound + 1) number?

end Lexer

def Command.parseAll (source : Text) (first : Int64 := 1) :
    List Command × Option Lexer.Interruption :=
  let r := (Lexer.ofText source first).all
  (r.1, r.2.1)

end Toolpath
