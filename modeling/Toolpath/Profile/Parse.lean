import Toolpath.Document.Json
import Toolpath.Document.Yaml.Resolve
import Toolpath.Profile.Builtin
import Toolpath.Profile.Schema

/-!
# Reading profiles

A document that fits the schema is laid over the built-in profile it extends,
or over the generic one: what it says replaces what was there, field by field
and, for registers and codes, key by key.
-/

namespace Toolpath

inductive DocumentFormat
  | json
  | yaml
deriving DecidableEq, Repr

inductive ProfileCause
  | malformed (format : DocumentFormat)
  | unconvertible
  | invalid
  | unknownParent (e : UnknownProfile)
  /-- A whole number that does not fit 64 bits. -/
  | numberRange
  | other (reason : Text)
deriving DecidableEq

def ProfileCause.message : ProfileCause → Text
  | malformed .json => "parse json"
  | malformed .yaml => "parse yaml"
  | unconvertible => "convert yaml"
  | invalid => "does not match schema"
  | unknownParent e => e.message
  | numberRange => "json"
  | other reason => reason

structure ProfileError where
  source : Text
  cause : Option ProfileCause := none
  problems : List Problem := []
deriving DecidableEq

namespace ProfileError

def headline (e : ProfileError) : Text :=
  "controller profile " ++ e.source ++
    match e.cause with
    | some c => Text.ofString ": " ++ c.message
    | none => []

def problemLine (p : Problem) : Text :=
  "\n  " ++ (if p.path = [] then Text.ofString "/" else p.path) ++
    ": " ++ p.message

def message (e : ProfileError) : Text := e.headline ++ e.problems.flatMap problemLine

end ProfileError

namespace Profile

def registerRule : Rule :=
  .record [("format", .text .registerFormat), ("modal", .flag)] ["format", "modal"]

def schema : Rule :=
  .record
    [("extends", .text (.atLeast 1)),
      ("name", .text (.atLeast 1)),
      ("version", .text .version),
      ("machine", .text .any),
      ("separator", .text (.atMost 4)),
      ("lineEnding", .choice ["lf", "crlf"]),
      ("cancelMarker", .text .any),
      ("cycleStyle", .choice ["call", "gcode"]),
      ("arcRadius", .flag),
      ("registers", .table .registerName registerRule),
      ("blockNumbering", .record
        [("enabled", .flag), ("prefix", .text (.atMost 3)), ("start", .whole 0),
          ("increment", .whole 1)] []),
      ("comments", .record
        [("type", .choice ["parentheses", "semicolon", "both"]), ("prefix", .text .any),
          ("suffix", .text .any), ("semicolonPrefix", .text .any), ("maxLength", .whole 0),
          ("transliterate", .flag)] []),
      ("codes", .table .codeName (.text .functionCode)),
      ("templates", .record
        [("enabled", .flag), ("header", .list (.text .any)), ("footer", .list (.text .any))] [])] []

def problems (d : Document) : List Problem :=
  (Schema.check [] d schema).mergeSort fun a b =>
    if a.path = b.path then Text.le a.message b.message else Text.le a.path b.path

def textAt (d : Document) (key : Text) (old : Text) : Text :=
  match d.get? key with
  | some (.text t) => t
  | _ => old

def flagAt (d : Document) (key : Text) (old : Bool) : Bool :=
  match d.get? key with
  | some (.flag b) => b
  | _ => old

/-- The 64 bit integer that the shortest digits of a number spell. -/
def integer? (x : Float) : Option Int :=
  match Number.magnitude x with
  | .finite v =>
    match (Number.shortestDecimal v).whole? with
    | some n =>
      let whole : Int := if v.negative then -(n : Int) else n
      if -(Nat.pow 2 63 : Int) ≤ whole ∧ whole < Nat.pow 2 63 then some whole else none
    | none => none
  | _ => none

def wholeAt (d : Document) (key : Text) (old : Int) : Except ProfileCause Int :=
  match d.get? key with
  | some (.number x) =>
    match integer? x with
    | some whole => .ok whole
    | none => .error .numberRange
  | _ => .ok old

def linesAt (d : Document) (key : Text) (old : List Text) : List Text :=
  match d.get? key with
  | some (.list items) => items.filterMap fun x =>
      match x with
      | .text t => some t
      | _ => none
  | _ => old

def partAt (d : Document) (key : Text) : Document := (d.get? key).getD (.table [])

def entriesAt (d : Document) (key : Text) : List (Text × Document) :=
  match d.get? key with
  | some (.table entries) => entries
  | _ => []

def lineEndingAt (d : Document) (old : LineEnding) : LineEnding :=
  match d.get? "lineEnding" with
  | some (.text t) => if t = "crlf" then .crlf else .lf
  | _ => old

def cycleStyleAt (d : Document) (old : CycleStyle) : CycleStyle :=
  match d.get? "cycleStyle" with
  | some (.text t) => if t = "gcode" then .code else .call
  | _ => old

def commentKindAt (d : Document) (old : CommentKind) : CommentKind :=
  match d.get? "type" with
  | some (.text t) =>
    if t = "semicolon" then .semicolon
    else if t = "both" then .both
    else .parentheses
  | _ => old

def registersAt (d : Document) (old : List (Text × RegisterFormat)) :
    List (Text × RegisterFormat) :=
  (entriesAt d "registers").foldl
    (fun rs e => setEntry e.1 ⟨textAt e.2 "format" [], flagAt e.2 "modal" false⟩ rs) old

def codesAt (d : Document) (old : List (Text × Text)) : List (Text × Text) :=
  (entriesAt d "codes").foldl
    (fun cs e =>
      match e.2 with
      | .text t => setEntry e.1 t cs
      | _ => cs) old

def numberingAt (d : Document) (old : BlockNumbering) : Except ProfileCause BlockNumbering := do
  let d := partAt d "blockNumbering"
  let start ← wholeAt d "start" old.start
  let increment ← wholeAt d "increment" old.increment
  return { enabled := flagAt d "enabled" old.enabled, address := textAt d "prefix" old.address
           start, increment }

def commentsAt (d : Document) (old : Comments) : Except ProfileCause Comments := do
  let d := partAt d "comments"
  let maxLength ← wholeAt d "maxLength" old.maxLength
  return { kind := commentKindAt d old.kind, opening := textAt d "prefix" old.opening
           closing := textAt d "suffix" old.closing
           semicolonOpening := textAt d "semicolonPrefix" old.semicolonOpening
           maxLength, transliterate := flagAt d "transliterate" old.transliterate }

def templatesAt (d : Document) (old : Templates) : Templates :=
  let d := partAt d "templates"
  { enabled := flagAt d "enabled" old.enabled, header := linesAt d "header" old.header
    footer := linesAt d "footer" old.footer }

/-- The profile with everything replaced that the document gives. It extends no other. -/
def overlay (p : Profile) (d : Document) : Except ProfileCause Profile := do
  let numbering ← numberingAt d p.numbering
  let comments ← commentsAt d p.comments
  return {
    parentName := []
    name := textAt d "name" p.name
    version := textAt d "version" p.version
    machine := textAt d "machine" p.machine
    separator := textAt d "separator" p.separator
    lineEnding := lineEndingAt d p.lineEnding
    cancelMarker := textAt d "cancelMarker" p.cancelMarker
    cycleStyle := cycleStyleAt d p.cycleStyle
    arcRadius := flagAt d "arcRadius" p.arcRadius
    registers := registersAt d p.registers
    numbering, comments
    codes := codesAt d p.codes
    templates := templatesAt d p.templates }

def parent (d : Document) : Except ProfileCause Profile :=
  match d.get? "extends" with
  | some (.text name) =>
    match builtin name with
    | .ok p => .ok p
    | .error e => .error (.unknownParent e)
  | _ => .ok {}

def document (data : Text) (format : DocumentFormat) : Except ProfileCause Document :=
  match format with
  | .json =>
    match Document.ofJson? data with
    | some d => .ok d
    | none => .error (.malformed .json)
  | .yaml =>
    match Document.ofYaml data with
    | .ok d => .ok d
    | .error .malformed => .error (.malformed .yaml)
    | .error .unconvertible => .error .unconvertible

def parse (data : Text) (format : DocumentFormat) (source : Text) : Except ProfileError Profile :=
  match document data format with
  | .error cause => .error { source, cause := some cause }
  | .ok d =>
    match problems d with
    | [] =>
      match parent d >>= fun p => p.overlay d with
      | .ok p => .ok p
      | .error cause => .error { source, cause := some cause }
    | problems => .error { source, cause := some .invalid, problems }

end Profile
end Toolpath
