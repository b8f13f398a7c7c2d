import Toolpath.Document.Basic
import Toolpath.Profile.Semver
import Toolpath.Word.Format

/-!
# The shape of a profile document

A rule says what a part of a document must be. Checking a document against a
rule lists every place that breaks it. A part of the wrong kind is not looked
into any further.
-/

namespace Toolpath

structure Problem where
  path : Text
  message : Text
deriving DecidableEq

inductive TextRule
  | any
  | atLeast (n : Nat)
  | atMost (n : Nat)
  | version
  | registerFormat
  /-- A capital letter, then digits and points. -/
  | functionCode

inductive KeyRule
  /-- One to three letters. -/
  | registerName
  /-- Small letters and underscores, a letter in front. -/
  | codeName

inductive Rule
  | text (rule : TextRule)
  | choice (options : List Text)
  | flag
  /-- A whole number that is not below `least`. -/
  | whole (least : Nat)
  | list (item : Rule)
  | record (fields : List (Text × Rule)) (required : List Text)
  | table (keys : KeyRule) (value : Rule)

namespace Schema

def expected (kind : Text) (d : Document) : Text :=
  "expected " ++ kind ++ ", but got " ++ d.kind

def isRegisterName (t : Text) : Bool :=
  1 ≤ t.length && t.length ≤ 3 && t.all fun b => Text.isUpper b || Text.isLower b

def isCodeName (t : Text) : Bool :=
  match t with
  | b :: t => Text.isLower b && t.all fun b => Text.isLower b || b = 95
  | [] => false

def isFunctionCode (t : Text) : Bool :=
  match t with
  | b :: t => Text.isUpper b && t ≠ [] && t.all fun b => Text.isDigit b || b = Text.point
  | [] => false

def mismatch (pattern : Text) : Text :=
  "does not match pattern " ++ Text.singleQuoted pattern

def invalid (t form : Text) : Text :=
  Text.singleQuoted t ++ " is not valid " ++ Text.singleQuoted form

def wrongLength (relation : Text) (limit : Nat) (t : Text) : Text :=
  "length must be " ++ relation ++ Text.space :: Text.ofNat limit ++
    ", but got " ++ Text.ofNat t.symbolCount

def textFault (r : TextRule) (t : Text) : Option Text :=
  match r with
  | .any => none
  | .atLeast n => if t.symbolCount < n then some (wrongLength ">=" n t) else none
  | .atMost n => if n < t.symbolCount then some (wrongLength "<=" n t) else none
  | .version => if Semver.isValid t then none else some (invalid t "semver")
  | .registerFormat =>
    if (NumberFormat.parse? t).isSome then none else some (invalid t "formatspec")
  | .functionCode => if isFunctionCode t then none else some (mismatch "^[A-Z][0-9.]+$")

def keyFault (r : KeyRule) (t : Text) : Option Text :=
  match r with
  | .registerName =>
    if isRegisterName t then none else some (mismatch "^[A-Za-z]\x7b1,3\x7d$")
  | .codeName => if isCodeName t then none else some (mismatch "^[a-z][a-z_]*$")

def isPathByte (b : UInt8) : Bool :=
  Text.isDigit b || Text.isUpper b || Text.isLower b ||
    (Text.ofString "-_.~$&+:=@").contains b

def pathOctet (b : UInt8) : Text :=
  if b = 126 then "~0" else if b = 47 then "~1"
  else if isPathByte b then [b]
  else
    let digit (n : Nat) : UInt8 := if n < 10 then (48 + n).toUInt8 else (55 + n).toUInt8
    [37, digit (b.toNat / 16), digit (b.toNat % 16)]

def below (path key : Text) : Text :=
  if key = [] then path else path ++ Text.slash :: key.flatMap pathOctet

def isWhole (x : Float) : Bool :=
  match Number.magnitude x with
  | .finite v =>
    let (n, d) := Number.scale v.mantissa v.exponent
    n % d = 0
  | _ => false

def names (keys : List Text) : Text := Text.join ", " (keys.map Text.singleQuoted)

def wholeFault (least : Nat) (x : Float) (d : Document) : Option Text :=
  if !isWhole x then some (expected "integer" d)
  else if x < Number.ofNat false least then
    some (Text.ofString "must be >= " ++ Text.ofNat least ++ " but found " ++
      Number.general x)
  else none

def recordFaults (fields : List Text) (required keys : List Text) : List Text :=
  let missing := required.filter fun k => !keys.contains k
  let extra := Text.sort (keys.filter fun k => !fields.contains k)
  (if missing = [] then [] else [Text.ofString "missing properties: " ++ names missing]) ++
    (if extra = [] then []
      else [Text.ofString "additionalProperties " ++ names extra ++ " not allowed"])

def oneOf (options : List Text) : Text :=
  "value must be one of " ++ Text.join ", " (options.map Text.quoted)

def located (path : Text) (message : Option Text) : List Problem :=
  match message with
  | some m => [⟨path, m⟩]
  | none => []

mutual

def check (path : Text) (d : Document) : Rule → List Problem
  | .text rule =>
    match d with
    | .text t => located path (textFault rule t)
    | d => [⟨path, expected "string" d⟩]
  | .choice options =>
    match d with
    | .text t => if options.contains t then [] else [⟨path, oneOf options⟩]
    | _ => [⟨path, oneOf options⟩]
  | .flag =>
    match d with
    | .flag _ => []
    | d => [⟨path, expected "boolean" d⟩]
  | .whole least =>
    match d with
    | .number x => located path (wholeFault least x d)
    | d => [⟨path, expected "integer" d⟩]
  | .list item =>
    match d with
    | .list items =>
      items.zipIdx.flatMap fun p => check (below path (Text.ofNat p.2)) p.1 item
    | d => [⟨path, expected "array" d⟩]
  | .record fields required =>
    match d with
    | .table entries =>
      (recordFaults (fields.map Prod.fst) required (entries.map Prod.fst)).map (Problem.mk path) ++
        checkFields path entries fields
    | d => [⟨path, expected "object" d⟩]
  | .table keys value =>
    match d with
    | .table entries =>
      entries.flatMap fun e =>
        located (below path e.1) (keyFault keys e.1) ++ check (below path e.1) e.2 value
    | d => [⟨path, expected "object" d⟩]

def checkFields (path : Text) (entries : List (Text × Document)) :
    List (Text × Rule) → List Problem
  | [] => []
  | (key, rule) :: rest =>
    (match entries.lookup key with
      | some d => check (below path key) d rule
      | none => []) ++ checkFields path entries rest

end
end Schema
end Toolpath
