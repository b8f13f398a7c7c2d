import Toolpath.Charset.Utf16
import Toolpath.Document.Basic
import Toolpath.Document.Yaml.Node
import Toolpath.Document.Yaml.Timestamp
import Toolpath.Number.Decimal
import Toolpath.Text.Base64

/-!
# The meaning of YAML nodes

Plain text may be a number, a truth value, nothing at all or a point in time;
a tag can demand one of these. The keys of a mapping are distinct, and a key
`<<` merges the entries of other mappings into it. Some documents are well
formed but mean something that no document holds: a key that is no text, or a
number that is not finite.
-/

namespace Toolpath.Yaml

inductive Scalar
  | null
  | flag (b : Bool)
  | integer (i : Int)
  | float (x : Float)
  | moment (t : Timestamp)
  | text (t : Text)

namespace Scalar

def nulls : List String := ["", "~", "null", "Null", "NULL"]
def trues : List String := ["true", "True", "TRUE"]
def falses : List String := ["false", "False", "FALSE"]
def undefineds : List String := [".nan", ".NaN", ".NAN"]
def infinities : List String := [".inf", ".Inf", ".INF", "+.inf", "+.Inf", "+.INF"]
def negativeInfinities : List String := ["-.inf", "-.Inf", "-.INF"]

def named? (s : String) : Option Scalar :=
  if nulls.contains s then some .null
  else if trues.contains s then some (.flag true)
  else if falses.contains s then some (.flag false)
  else if undefineds.contains s then some (.float Number.nan)
  else if infinities.contains s then some (.float (Number.infinity false))
  else if negativeInfinities.contains s then some (.float (Number.infinity true))
  else none

def digitOf? (base : Nat) (b : UInt8) : Option Nat :=
  match Text.hexValue? b with
  | some d => if d < base then some d else none
  | none => none

def digitsIn? (base : Nat) (t : Text) : Option Nat :=
  t.foldl (fun n b => do return (← n) * base + (← digitOf? base b)) (some 0)

def natural? (t : Text) : Option Nat :=
  match t with
  | [] => none
  | 48 :: k :: d :: t =>
    if k = 98 || k = 66 then digitsIn? 2 (d :: t)
    else if k = 111 || k = 79 then digitsIn? 8 (d :: t)
    else if k = 120 || k = 88 then digitsIn? 16 (d :: t)
    else digitsIn? 8 (k :: d :: t)
  | 48 :: t => digitsIn? 8 t
  | t => digitsIn? 10 t

/-- An integer of 64 bits; one without a sign may use all of them. -/
def integer? (t : Text) : Option Int :=
  match t with
  | 45 :: t => do
    let n ← natural? t
    if n ≤ Nat.pow 2 63 then some (-(n : Int)) else none
  | 43 :: t => do
    let n ← natural? t
    if n < Nat.pow 2 63 then some n else none
  | t => do
    let n ← natural? t
    if n < Nat.pow 2 64 then some n else none

def looksDecimal (t : Text) : Bool :=
  let t := match t with
    | 45 :: t => t
    | 43 :: t => t
    | t => t
  let whole := t.takeWhile Text.isDigit
  let t := t.dropWhile Text.isDigit
  let (point, t) := match t with
    | 46 :: t => (true, t)
    | t => (false, t)
  let part := if point then t.takeWhile Text.isDigit else []
  let t := if point then t.dropWhile Text.isDigit else t
  let exponent := match t with
    | [] => true
    | e :: t =>
      let t := match t with
        | 45 :: t => t
        | 43 :: t => t
        | t => t
      (e = 101 || e = 69) && t ≠ [] && t.all Text.isDigit
  (whole ≠ [] || part ≠ []) && exponent

def finite? (t : Text) : Option Scalar :=
  match Number.readAny t with
  | .ok x => some (.float x)
  | .error _ => none

def numeric? (timed : Bool) (t : Text) : Option Scalar :=
  match if timed then Timestamp.ofText? t else none with
  | some m => some (.moment m)
  | none =>
    let plain := t.filter (· ≠ 95)
    match integer? plain with
    | some i => some (.integer i)
    | none => if looksDecimal plain then finite? plain else none

def ofPlain (timed : Bool) (s : String) : Scalar :=
  match named? s with
  | some v => v
  | none =>
    let t := Text.ofString s
    let found : Option Scalar :=
      match t with
      | [] => none
      | b :: _ =>
        if b = 46 then finite? t
        else if b = 43 || b = 45 || Text.isDigit b then numeric? timed t
        else none
    found.getD (.text t)

def tag : Scalar → String
  | null => "!!null"
  | flag _ => "!!bool"
  | integer _ => "!!int"
  | float _ => "!!float"
  | moment _ => "!!timestamp"
  | text _ => "!!str"

def demands : List String := ["!!bool", "!!int", "!!float", "!!null", "!!timestamp"]

/-- What a scalar with a tag means. Under a tag of its own it is text. -/
def ofTagged (tag : String) (s : String) : Except Malformed Scalar :=
  if tag = "!!binary" then
    match Base64.decode? s with
    | some t => .ok (.text (Text.scrub t))
    | none => .error .malformed
  else if !demands.contains tag then .ok (.text s)
  else
    let v := ofPlain (tag = "!!timestamp") s
    if v.tag = tag then .ok v
    else
      match tag, v with
      | "!!float", .integer i => .ok (.float (Number.ofInt i))
      | _, _ => .error .malformed

def ofNode (tag : String) (styled : Bool) (s : String) : Except Malformed Scalar :=
  if tag = "" || tag = "!" then .ok (if styled then .text s else ofPlain true s)
  else ofTagged tag s

def document : Scalar → Document × Bool
  | null => (.null, true)
  | flag b => (.flag b, true)
  | integer i => (.number (Number.ofInt i), true)
  | float x => (.number x, Number.isFinite x)
  | moment t => (.text t.render, true)
  | text t => (.text t, true)

end Scalar

abbrev Meaning := Document × Bool

structure Entry where
  key : Text
  textual : Bool
  value : Meaning

def Node.signature : Node → Nat × String
  | .scalar _ _ s => (0, s)
  | .sequence _ _ => (1, "")
  | .mapping _ _ => (2, "")
  | .alias name _ _ => (3, name)

def keysOf : List Node → List Node
  | k :: _ :: rest => k :: keysOf rest
  | _ => []

def distinctKeys (items : List Node) : Bool :=
  let keys := (keysOf items).map Node.signature
  decide (keys.Pairwise (· ≠ ·))

def isMergeKey : Node → Bool
  | .scalar tag styled s =>
    s = "<<" && (tag = "!!merge" || ((tag = "" || tag = "!") && !styled))
  | _ => false

def Node.target : Node → Node
  | .alias _ n _ => n
  | n => n

def Node.isSequence : Node → Bool
  | .sequence _ _ => true
  | _ => false

def keyTags : List String := ["", "!", "!!str", "!!merge"]

def keyOf (n : Node) : Except Malformed (Text × Bool) :=
  match n.target with
  | .scalar tag styled s =>
    match Scalar.ofNode tag styled s with
    | .error e => .error e
    | .ok (.text t) => .ok (t, keyTags.contains tag)
    | .ok _ => .ok (s, false)
  | _ => .error .malformed

def addNew (entries : List Entry) (more : List Entry) : List Entry :=
  more.foldl (fun es e => if es.any (·.key = e.key) then es else es ++ [e]) entries

mutual

def Node.meaning : Node → Except Malformed Meaning
  | .scalar tag styled s => (Scalar.ofNode tag styled s).map Scalar.document
  | .sequence _ items => (meanings items).map fun ms => (.list (ms.map Prod.fst), ms.all Prod.snd)
  | .alias _ n _ => n.meaning
  | .mapping _ items =>
    if !distinctKeys items then .error .malformed
    else
      match ownEntries items with
      | .error e => .error e
      | .ok own =>
        match mergedEntries items with
        | .error e => .error e
        | .ok merged =>
          let entries := addNew own merged
          .ok (.table (entries.foldl (fun t e => Document.setEntry e.key e.value.1 t) []),
            own.all (·.textual) && entries.all (·.value.2))

def meanings : List Node → Except Malformed (List Meaning)
  | [] => .ok []
  | n :: ns =>
    match n.meaning with
    | .error e => .error e
    | .ok m => (meanings ns).map (m :: ·)

def ownEntries : List Node → Except Malformed (List Entry)
  | k :: v :: rest =>
    if isMergeKey k then ownEntries rest
    else
      match keyOf k with
      | .error e => .error e
      | .ok (key, textual) =>
        match v.meaning with
        | .error e => .error e
        | .ok value => (ownEntries rest).map ({ key, textual, value } :: ·)
  | _ => .ok []

def mergedEntries : List Node → Except Malformed (List Entry)
  | k :: v :: rest => if isMergeKey k then v.mergeSource else mergedEntries rest
  | _ => .ok []

def Node.mergeSource : Node → Except Malformed (List Entry)
  | .mapping _ items => mappingEntries items
  | .alias _ n _ =>
    match n with
    | .mapping _ items => mappingEntries items
    | _ => .error .malformed
  | .sequence _ items => sourceEntries items
  | _ => .error .malformed

def sourceEntries : List Node → Except Malformed (List Entry)
  | [] => .ok []
  | n :: ns =>
    if n.isSequence then .error .malformed
    else
      match n.mergeSource with
      | .error e => .error e
      | .ok es => (sourceEntries ns).map fun more => addNew es more

def mappingEntries (items : List Node) : Except Malformed (List Entry) :=
  if !distinctKeys items then .error .malformed
  else
    match ownEntries items with
    | .error e => .error e
    | .ok own => (mergedEntries items).map fun merged => addNew own merged

end

def isAllowed (c : Char) : Bool :=
  let n := c.toNat
  n = 0x09 || n = 0x0A || n = 0x0D || (0x20 ≤ n && n ≤ 0x7E) || n = 0x85 ||
    (0xA0 ≤ n && n ≤ 0xD7FF) || (0xE000 ≤ n && n ≤ 0xFFFD) || 0x10000 ≤ n

/-- The characters of a text, in UTF-8 or with a byte order mark that says otherwise. -/
def characters (t : Text) : Except Malformed (List Char) :=
  let symbols : List Symbol :=
    match t with
    | 0xFF :: 0xFE :: t => (Utf16.charsOnto .little [] t).map .scalar
    | 0xFE :: 0xFF :: t => (Utf16.charsOnto .big [] t).map .scalar
    | 0xEF :: 0xBB :: 0xBF :: t => Text.symbols t
    | t => Text.symbols t
  if symbols.all fun r => !r.isStray && isAllowed r.char then .ok (symbols.map Symbol.char)
  else .error .malformed

end Toolpath.Yaml

namespace Toolpath

inductive YamlError
  | malformed
  /-- It holds something that documents cannot. -/
  | unconvertible
deriving DecidableEq, Repr

/-- The first document of a text; without one it is the empty table. -/
def Document.ofYaml (t : Text) : Except YamlError Document :=
  match Yaml.characters t with
  | .error _ => .error .malformed
  | .ok cs =>
    match Yaml.Node.ofText? cs with
    | .error _ => .error .malformed
    | .ok none => .ok (.table [])
    | .ok (some n) =>
      if !n.moderate then .error .malformed
      else
        match n.meaning with
        | .error _ => .error .malformed
        | .ok (.null, _) => .ok (.table [])
        | .ok (d, convertible) => if convertible then .ok d else .error .unconvertible

end Toolpath
