import Toolpath.Document.Yaml.Token

/-!
# Nodes of YAML

The first document of a stream of tokens as a tree. A node keeps its tag; an
alias keeps its name and the node it stands for. What follows the document is
not looked at.
-/

namespace Toolpath.Yaml

inductive Node
  /-- A scalar; `styled` when it is quoted or block text. -/
  | scalar (tag : String) (styled : Bool) (text : String)
  | sequence (tag : String) (items : List Node)
  /-- Keys and values in turn. -/
  | mapping (tag : String) (items : List Node)
  /-- A repetition of a named node, with the number of nodes it repeats. -/
  | alias (name : String) (target : Node) (weight : Nat)

mutual

def Node.weight : Node → Nat
  | .scalar _ _ _ => 1
  | .sequence _ items => weightAll items + 1
  | .mapping _ items => weightAll items + 1
  | .alias _ _ weight => weight + 1

def weightAll : List Node → Nat
  | [] => 0
  | n :: ns => n.weight + weightAll ns

end

mutual

def Node.repeated : Node → Nat
  | .scalar _ _ _ => 0
  | .sequence _ items => repeatedAll items
  | .mapping _ items => repeatedAll items
  | .alias _ _ weight => weight

def repeatedAll : List Node → Nat
  | [] => 0
  | n :: ns => n.repeated + repeatedAll ns

end

/-- Whether a document does not consist almost wholly of repetitions; the
share that may be repeated falls from 99 to 10 percent as it grows. -/
def Node.moderate (n : Node) : Bool :=
  let all := n.weight + 1
  let again := n.repeated
  if again ≤ 100 || all ≤ 1000 then true
  else if all ≤ 400000 then again * 100 ≤ 99 * all
  else if 4000000 ≤ all then again * 10 ≤ all
  else again * 360000000 ≤ (99 * 3600000 - 89 * (all - 400000)) * all

structure Reading where
  tokens : List Token
  anchors : List (String × Node × Nat) := []
  handles : List (String × String) := []

namespace Reading

abbrev Result (α : Type) := Except Malformed (α × Reading)

def peek (r : Reading) : Except Malformed Token :=
  match r.tokens with
  | t :: _ => .ok t
  | [] => .error .malformed

def drop (r : Reading) : Reading := { r with tokens := r.tokens.tail }

def standardUri : String := "tag:yaml.org,2002:"

def shortTag (tag : String) : String :=
  let uri := standardUri.toList
  if uri.isPrefixOf tag.toList then "!!" ++ String.ofList (tag.toList.drop uri.length) else tag

def resolveTag (r : Reading) (handle suffix : String) : Except Malformed String :=
  if handle = "" then .ok (shortTag suffix)
  else
    match r.handles.lookup handle with
    | some uri => .ok (shortTag (uri ++ suffix))
    | none =>
      if handle = "!" then .ok ("!" ++ suffix)
      else if handle = "!!" then .ok (shortTag (standardUri ++ suffix))
      else .error .malformed

structure Properties where
  anchor : Option String := none
  tag : Option String := none

def readProperties (r : Reading) (p : Properties) : (fuel : Nat) → Result Properties
  | 0 => .ok (p, r)
  | fuel + 1 =>
    match r.tokens with
    | .anchor name :: _ =>
      if p.anchor.isSome then .ok (p, r)
      else r.drop.readProperties { p with anchor := some name } fuel
    | .tag handle suffix :: _ =>
      if p.tag.isSome then .ok (p, r)
      else
        match r.resolveTag handle suffix with
        | .error e => .error e
        | .ok tag => r.drop.readProperties { p with tag := some tag } fuel
    | _ => .ok (p, r)

def emptyNode (tag : String) : Node := .scalar tag false ""

def name (r : Reading) (p : Properties) (n : Node) : Node × Reading :=
  match p.anchor with
  | some a => (n, { r with anchors := (a, n, n.weight) :: r.anchors })
  | none => (n, r)

/-- How a kind of node is read, given whether blocks may stand here and
whether a sequence may go without indentation. -/
abbrev NodeReader := (block indentless : Bool) → Reading → Result Node

def readUnless (read : NodeReader) (block indentless : Bool) (stops : List Token) (r : Reading) :
    Result Node :=
  match r.peek with
  | .error e => .error e
  | .ok t => if stops.contains t then .ok (emptyNode "", r) else read block indentless r

def readBlockSequence (read : NodeReader) (acc : List Node) :
    (fuel : Nat) → Reading → Result (List Node)
  | 0, _ => .error .malformed
  | fuel + 1, r =>
    match r.peek with
    | .ok .blockEntry =>
      match readUnless read true false [.blockEntry, .blockEnd] r.drop with
      | .error e => .error e
      | .ok (n, r) => readBlockSequence read (n :: acc) fuel r
    | .ok .blockEnd => .ok (acc.reverse, r.drop)
    | _ => .error .malformed

def readIndentless (read : NodeReader) (acc : List Node) :
    (fuel : Nat) → Reading → Result (List Node)
  | 0, _ => .error .malformed
  | fuel + 1, r =>
    match r.peek with
    | .error e => .error e
    | .ok .blockEntry =>
      match readUnless read true false [.blockEntry, .key, .value, .blockEnd] r.drop with
      | .error e => .error e
      | .ok (n, r) => readIndentless read (n :: acc) fuel r
    | .ok _ => .ok (acc.reverse, r)

def readBlockValue (read : NodeReader) (r : Reading) : Result Node :=
  match r.peek with
  | .error e => .error e
  | .ok .value => readUnless read true true [.key, .value, .blockEnd] r.drop
  | .ok _ => .ok (emptyNode "", r)

def readBlockMapping (read : NodeReader) (acc : List Node) :
    (fuel : Nat) → Reading → Result (List Node)
  | 0, _ => .error .malformed
  | fuel + 1, r =>
    let key : Result (Option Node) :=
      match r.peek with
      | .ok .key =>
        (readUnless read true true [.key, .value, .blockEnd] r.drop).map fun p => (some p.1, p.2)
      | .ok .blockEnd => .ok (none, r.drop)
      | _ => .error .malformed
    match key with
    | .error e => .error e
    | .ok (none, r) => .ok (acc.reverse, r)
    | .ok (some k, r) =>
      match readBlockValue read r with
      | .error e => .error e
      | .ok (v, r) => readBlockMapping read (v :: k :: acc) fuel r

def takeComma (first : Bool) (r : Reading) : Except Malformed Reading :=
  if first then .ok r
  else
    match r.peek with
    | .ok .flowEntry => .ok r.drop
    | _ => .error .malformed

def readFlowValue (read : NodeReader) (stops : List Token) (r : Reading) : Result Node :=
  match r.peek with
  | .error e => .error e
  | .ok .value => readUnless read false false stops r.drop
  | .ok _ => .ok (emptyNode "", r)

def readSinglePair (read : NodeReader) (r : Reading) : Result Node :=
  let stops : List Token := [.flowEntry, .flowSequenceEnd]
  match r.peek with
  | .error e => .error e
  | .ok t =>
    let key : Result Node :=
      if (Token.value :: stops).contains t then .ok (emptyNode "", r.drop) else read false false r
    match key with
    | .error e => .error e
    | .ok (k, r) => (readFlowValue read stops r).map fun p => (.mapping "" [k, p.1], p.2)

def readFlowSequence (read : NodeReader) (acc : List Node) (first : Bool) :
    (fuel : Nat) → Reading → Result (List Node)
  | 0, _ => .error .malformed
  | fuel + 1, r =>
    match r.peek with
    | .error e => .error e
    | .ok .flowSequenceEnd => .ok (acc.reverse, r.drop)
    | .ok _ =>
      match takeComma first r with
      | .error e => .error e
      | .ok r =>
        match r.peek with
        | .error e => .error e
        | .ok .flowSequenceEnd => .ok (acc.reverse, r.drop)
        | .ok t =>
          match if t = .key then readSinglePair read r.drop else read false false r with
          | .error e => .error e
          | .ok (n, r) => readFlowSequence read (n :: acc) false fuel r

def readFlowMapping (read : NodeReader) (acc : List Node) (first : Bool) :
    (fuel : Nat) → Reading → Result (List Node)
  | 0, _ => .error .malformed
  | fuel + 1, r =>
    let stops : List Token := [.flowEntry, .flowMappingEnd]
    match r.peek with
    | .error e => .error e
    | .ok .flowMappingEnd => .ok (acc.reverse, r.drop)
    | .ok _ =>
      match takeComma first r with
      | .error e => .error e
      | .ok r =>
        match r.peek with
        | .error e => .error e
        | .ok .flowMappingEnd => .ok (acc.reverse, r.drop)
        | .ok .key =>
          match readUnless read false false (.value :: stops) r.drop with
          | .error e => .error e
          | .ok (k, r) =>
            match readFlowValue read stops r with
            | .error e => .error e
            | .ok (v, r) => readFlowMapping read (v :: k :: acc) false fuel r
        | .ok _ =>
          match read false false r with
          | .error e => .error e
          | .ok (k, r) => readFlowMapping read (emptyNode "" :: k :: acc) false fuel r

def readContent (read : NodeReader) (block indentless : Bool) (p : Properties) (r : Reading) :
    Result Node :=
  let fuel := r.tokens.length + 1
  let tag := p.tag.getD ""
  match r.peek with
  | .error e => .error e
  | .ok t =>
    if indentless && t = .blockEntry then
      (readIndentless read [] fuel r).map fun q => (.sequence tag q.1, q.2)
    else
      match t with
      | .scalar text plain => .ok (.scalar tag (!plain) text, r.drop)
      | .flowSequence =>
        (readFlowSequence read [] true fuel r.drop).map fun q => (.sequence tag q.1, q.2)
      | .flowMapping =>
        (readFlowMapping read [] true fuel r.drop).map fun q => (.mapping tag q.1, q.2)
      | .blockSequence =>
        if block then
          (readBlockSequence read [] fuel r.drop).map fun q => (.sequence tag q.1, q.2)
        else .error .malformed
      | .blockMapping =>
        if block then
          (readBlockMapping read [] fuel r.drop).map fun q => (.mapping tag q.1, q.2)
        else .error .malformed
      | _ =>
        if p.anchor.isSome || p.tag.isSome then .ok (emptyNode tag, r) else .error .malformed

def readNode : (depth : Nat) → NodeReader
  | 0 => fun _ _ _ => .error .malformed
  | depth + 1 => fun block indentless r =>
    match r.peek with
    | .error e => .error e
    | .ok (.alias name) =>
      match r.anchors.lookup name with
      | some (n, weight) => .ok (.alias name n weight, r.drop)
      | none => .error .malformed
    | .ok _ =>
      match r.readProperties {} 3 with
      | .error e => .error e
      | .ok (p, r) =>
        match readContent (readNode depth) block indentless p r with
        | .error e => .error e
        | .ok (n, r) => .ok (r.name p n)

def readDirectives (versioned : Bool) : (fuel : Nat) → Reading → Except Malformed Reading
  | 0, r => .ok r
  | fuel + 1, r =>
    match r.tokens with
    | .version known :: _ =>
      if versioned || !known then .error .malformed else readDirectives true fuel r.drop
    | .tagDirective handle uri :: _ =>
      if (r.handles.lookup handle).isSome then .error .malformed
      else readDirectives versioned fuel { r.drop with handles := (handle, uri) :: r.handles }
    | _ => .ok r

def readDocument (r : Reading) : Except Malformed (Option Node) :=
  let root (r : Reading) : Except Malformed (Option Node) :=
    match readNode (r.tokens.length + 1) true false r with
    | .error e => .error e
    | .ok (n, r) => r.peek.map fun _ => some n
  match r.peek with
  | .error e => .error e
  | .ok t =>
    match t with
    | .streamEnd => .ok none
    | .documentStart => content root r.drop
    | .version _ | .tagDirective _ _ =>
      match r.readDirectives false (r.tokens.length + 1) with
      | .error e => .error e
      | .ok r =>
        match r.peek with
        | .ok .documentStart => content root r.drop
        | _ => .error .malformed
    | _ => root r
where
  /-- The content behind the marker, which may be missing. -/
  content (root : Reading → Except Malformed (Option Node)) (r : Reading) :
      Except Malformed (Option Node) :=
    match r.peek with
    | .error e => .error e
    | .ok t =>
      match t with
      | .version _ | .tagDirective _ _ | .documentStart | .documentEnd | .streamEnd =>
        .ok (some (emptyNode ""))
      | _ => root r

end Reading

def Node.ofText? (text : List Char) : Except Malformed (Option Node) :=
  Reading.readDocument { tokens := tokens text }

end Toolpath.Yaml
