import Toolpath.Cbor.Reader
import Toolpath.Statement.Command

/-!
# Commands as data items

A command is a map from the keys 1 to 5 to its major word, its minor words,
its numbers, its texts and its line. What is empty is left out, but for the
major word. Reading is lenient in form: a key may be the number or its
numeral, tags are looked through, and an item without a value leaves its
place empty.
-/

namespace Toolpath.Stream

open Cbor (Item)

inductive Fault
  | unreadable (fault : Cbor.Fault)
  | duplicateKey
  | unknownField
  /-- A value of the wrong kind or out of range. -/
  | mismatch
  | invalidText
  /-- A tag with a meaning of its own on an item that cannot have it. -/
  | inadmissibleTag
deriving DecidableEq, Repr

def Fault.message : Fault → Text
  | unreadable .truncated => "unexpected EOF"
  | unreadable .syntactic => "cbor: malformed data item"
  | unreadable .tooDeep => "cbor: exceeded max nested level 4"
  | unreadable .tooManyItems => "cbor: exceeded max number of elements 1048576 for CBOR array"
  | unreadable .tooManyPairs => "cbor: exceeded max number of key-value pairs 131072 for CBOR map"
  | unreadable .tooLong => "cbor: length is too large"
  | duplicateKey => "cbor: found duplicate map key"
  | unknownField => "cbor: found unknown field"
  | mismatch => "cbor: cannot unmarshal data item"
  | invalidText => "cbor: invalid UTF-8 string"
  | inadmissibleTag => "cbor: inadmissible type for tag content"

def textItem (t : Text) : Item := .text [t]

def lineItem (i : Int64) : Item :=
  if 0 ≤ i then .unsigned i.toInt.toNat else .negative (-1 - i.toInt).toNat

def entry (key : Nat) (empty : Bool) (value : Item) : List Item :=
  if empty then [] else [.unsigned key, value]

def item (c : Command) : Item :=
  .map (entry 1 false (textItem c.major) ++
    entry 2 c.minor.isEmpty (.array (c.minor.map textItem)) ++
    entry 3 c.numeric.isEmpty (.array (c.numeric.map .float)) ++
    entry 4 c.strings.isEmpty (.array (c.strings.map textItem)) ++
    entry 5 (c.line = 0) (lineItem c.line))

def record (c : Command) : Text := (item c).encode

def admissible (tag : Nat) (content : Item) : Bool :=
  match tag, content with
  | 0, .text _ => true
  | 0, _ => false
  | 1, .unsigned _ => true
  | 1, .negative _ => true
  | 1, .float _ => true
  | 1, _ => false
  | 2, .bytes _ => true
  | 2, _ => false
  | 3, .bytes _ => true
  | 3, _ => false
  | _, _ => true

/-- The item under its tags. The tags 2 and 3 make a number of octets. -/
def untagged : Item → Except Fault Item
  | .tagged tag content =>
    if admissible tag content then
      match tag, content with
      | 2, .bytes t => .ok (.unsigned (Cbor.ofBigEndian t))
      | 3, .bytes t => .ok (.negative (Cbor.ofBigEndian t))
      | _, _ => untagged content
    else .error .inadmissibleTag
  | x => .ok x

def isVoid (code : Nat) : Bool := code ≠ 20 && code ≠ 21

def chunksText (chunks : List Text) : Except Fault Text :=
  if chunks.all Text.isUtf8 then .ok chunks.flatten else .error .invalidText

def readText (x : Item) : Except Fault Text :=
  match untagged x with
  | .error e => .error e
  | .ok (.text chunks) => chunksText chunks
  | .ok (.simple code) => if isVoid code then .ok [] else .error .mismatch
  | .ok _ => .error .mismatch

def readNumber (x : Item) : Except Fault Float :=
  match untagged x with
  | .error e => .error e
  | .ok (.unsigned n) => if n < Nat.pow 2 64 then .ok (Number.ofNat false n) else .error .mismatch
  | .ok (.negative n) =>
    if n < Nat.pow 2 63 then .ok (Number.ofNat true (n + 1)) else .error .mismatch
  | .ok (.float x) => .ok x
  | .ok (.simple code) => if isVoid code then .ok 0 else .error .mismatch
  | .ok _ => .error .mismatch

def readLine (x : Item) : Except Fault Int64 :=
  match untagged x with
  | .error e => .error e
  | .ok (.unsigned n) => if n < Nat.pow 2 63 then .ok (Int64.ofInt n) else .error .mismatch
  | .ok (.negative n) => if n < Nat.pow 2 63 then .ok (Int64.ofInt (-1 - n)) else .error .mismatch
  | .ok (.simple code) => if isVoid code then .ok 0 else .error .mismatch
  | .ok _ => .error .mismatch

def readEach {α : Type} (f : Item → Except Fault α) (acc : List α) :
    List Item → Except Fault (List α)
  | [] => .ok acc.reverse
  | x :: xs =>
    match f x with
    | .error e => .error e
    | .ok a => readEach f (a :: acc) xs

def readList {α : Type} (f : Item → Except Fault α) (x : Item) : Except Fault (List α) :=
  match untagged x with
  | .error e => .error e
  | .ok (.array items) => readEach f [] items
  | .ok (.simple code) => if isVoid code then .ok [] else .error .mismatch
  | .ok _ => .error .mismatch

inductive Key
  | field (i : Nat)
  | other
  /-- The key is of a kind that names nothing. -/
  | unusable
  | invalidText
deriving DecidableEq, Repr

def fieldNamed (n : Nat) : Key := if 1 ≤ n && n ≤ 5 then .field n else .other

def numeralKey (t : Text) : Key :=
  match t with
  | [b] => if Text.isDigit b then fieldNamed (b.toNat - 48) else .other
  | _ => .other

def isScalarKey : Item → Bool
  | .text chunks => chunks.all Text.isUtf8
  | .bytes _ => false
  | .array _ => false
  | .map _ => false
  | .tagged n content => admissible n content && n ≠ 0 && n ≠ 2 && n ≠ 3 && isScalarKey content
  | _ => true

/-- A negative key counts as its complement among 64 bit integers, so that the
keys furthest below zero come round to the fields. -/
def keyOf : Item → Key
  | .text chunks =>
    match chunksText chunks with
    | .ok t => numeralKey t
    | .error _ => .invalidText
  | .unsigned n => fieldNamed n
  | .negative n => fieldNamed (Nat.pow 2 64 - 1 - n)
  | x => if isScalarKey x then .other else .unusable

def readField (i : Nat) (x : Item) (c : Command) : Except Fault Command :=
  match i with
  | 1 => (readText x).map fun t => { c with major := t }
  | 2 => (readList readText x).map fun l => { c with minor := l }
  | 3 => (readList readNumber x).map fun l => { c with numeric := l }
  | 4 => (readList readText x).map fun l => { c with strings := l }
  | _ => (readLine x).map fun l => { c with line := l }

structure Draft where
  command : Command := { major := [] }
  seen : List Nat := []
  fault : Option Fault := none

def Draft.note (p : Draft) (e : Fault) : Draft := { p with fault := p.fault <|> some e }

def Draft.assign (p : Draft) (i : Nat) (x : Item) : Draft :=
  let p := { p with seen := i :: p.seen }
  match readField i x p.command with
  | .ok c => { p with command := c }
  | .error e => p.note e

/-- Reads keys and values in turn. A key that is given twice or that names no
field is reported before any fault of a value. -/
def readEntries (p : Draft) : List Item → Except Fault Command
  | key :: value :: rest =>
    match keyOf key with
    | .field i =>
      if p.seen.contains i then .error .duplicateKey else readEntries (p.assign i value) rest
    | .other => .error .unknownField
    | .unusable => readEntries (p.note .mismatch) rest
    | .invalidText => readEntries (p.note .invalidText) rest
  | _ =>
    match p.fault with
    | some e => .error e
    | none => .ok p.command

/-- The command an item stands for. Its major word may be empty. -/
def readCommand (x : Item) : Except Fault Command :=
  match untagged x with
  | .error e => .error e
  | .ok (.map items) => readEntries {} items
  | .ok (.simple code) => if isVoid code then .ok { major := [] } else .error .mismatch
  | .ok _ => .error .mismatch

end Toolpath.Stream
