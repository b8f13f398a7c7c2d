import Toolpath.Document.Basic
import Toolpath.Number.Decimal
import Toolpath.Text.Symbol

/-!
# Documents in JSON

`Document.ofJson?` reads exactly one value with blanks around it. A number is
the double closest to it and must be in range; of two entries with one key
the last counts; octets that are not UTF-8 and surrogates without a partner
become replacement characters.
-/

namespace Toolpath.Json

def isBlank (b : UInt8) : Bool := b = 32 || b = 9 || b = 10 || b = 13

def skipBlanks (t : Text) : Text := t.dropWhile isBlank

def readFourHex? : Text → Option (Nat × Text)
  | a :: b :: c :: d :: t => do
    let a ← Text.hexValue? a
    let b ← Text.hexValue? b
    let c ← Text.hexValue? c
    let d ← Text.hexValue? d
    return (((a * 16 + b) * 16 + c) * 16 + d, t)
  | _ => none

def readPartner? : Text → Option (Nat × Text)
  | 92 :: 117 :: t => do
    let (v, t) ← readFourHex? t
    if 0xDC00 ≤ v && v < 0xE000 then some (v, t) else none
  | _ => none

def readUnicode? (t : Text) : Option (Char × Text) := do
  let (u, t) ← readFourHex? t
  if 0xD800 ≤ u && u < 0xDC00 then
    match readPartner? t with
    | some (v, t) => some (Char.ofNat (0x10000 + (u - 0xD800) * 0x400 + (v - 0xDC00)), t)
    | none => some (Symbol.replacement, t)
  else if 0xDC00 ≤ u && u < 0xE000 then some (Symbol.replacement, t)
  else some (Char.ofNat u, t)

def simpleEscape? (b : UInt8) : Option UInt8 :=
  match b with
  | 34 => some 34
  | 92 => some 92
  | 47 => some 47
  | 98 => some 8
  | 102 => some 12
  | 110 => some 10
  | 114 => some 13
  | 116 => some 9
  | _ => none

def readString? (acc : Text) : (fuel : Nat) → Text → Option (Text × Text)
  | 0, _ => none
  | fuel + 1, t =>
    match t with
    | [] => none
    | 34 :: t => some (Text.scrub acc.reverse, t)
    | 92 :: 117 :: t =>
      match readUnicode? t with
      | some (c, t) => readString? ((Text.ofChar c).reverse ++ acc) fuel t
      | none => none
    | 92 :: b :: t =>
      match simpleEscape? b with
      | some e => readString? (e :: acc) fuel t
      | none => none
    | b :: t => if b < 32 || b = 92 then none else readString? (b :: acc) fuel t

def digits? (t : Text) : Option (Text × Text) :=
  let front := t.takeWhile Text.isDigit
  if front = [] then none else some (front, t.dropWhile Text.isDigit)

def whole? (t : Text) : Option (Text × Text) :=
  match t with
  | 48 :: t => some ([48], t)
  | _ => digits? t

def fraction? (t : Text) : Option (Text × Text) :=
  match t with
  | 46 :: t => (digits? t).map fun p => (46 :: p.1, p.2)
  | _ => some ([], t)

def exponent? (t : Text) : Option (Text × Text) :=
  match t with
  | e :: t =>
    if e = 101 || e = 69 then
      match t with
      | s :: t' =>
        if s = 43 || s = 45 then (digits? t').map fun p => (e :: s :: p.1, p.2)
        else (digits? t).map fun p => (e :: p.1, p.2)
      | [] => none
    else some ([], e :: t)
  | [] => some ([], [])

def number? (t : Text) : Option (Document × Text) := do
  let (sign, t) := match t with
    | 45 :: t => ([(45 : UInt8)], t)
    | _ => ([], t)
  let (w, t) ← whole? t
  let (f, t) ← fraction? t
  let (e, t) ← exponent? t
  match Number.read (sign ++ w ++ f ++ e) with
  | .ok x => some (.number x, t)
  | .error _ => none

def literal? (t : Text) : Option (Document × Text) :=
  match t.dropFront? "null", t.dropFront? "true", t.dropFront? "false" with
  | some t, _, _ => some (.null, t)
  | _, some t, _ => some (.flag true, t)
  | _, _, some t => some (.flag false, t)
  | _, _, _ => none

def depthLimit : Nat := 10000

abbrev ValueReader := Text → Option (Document × Text)

def readItems (value : ValueReader) (acc : List Document) : (fuel : Nat) → ValueReader
  | 0, _ => none
  | fuel + 1, t =>
    match value t with
    | none => none
    | some (x, t) =>
      match skipBlanks t with
      | 44 :: t => readItems value (x :: acc) fuel t
      | 93 :: t => some (.list (x :: acc).reverse, t)
      | _ => none

def readKey? (t : Text) : Option (Text × Text) :=
  match skipBlanks t with
  | 34 :: t =>
    match readString? [] (t.length + 1) t with
    | some (key, t) =>
      match skipBlanks t with
      | 58 :: t => some (key, t)
      | _ => none
    | none => none
  | _ => none

def readEntries (value : ValueReader) (acc : List (Text × Document)) : (fuel : Nat) → ValueReader
  | 0, _ => none
  | fuel + 1, t =>
    match readKey? t with
    | none => none
    | some (key, t) =>
      match value t with
      | none => none
      | some (x, t) =>
        let acc := Document.setEntry key x acc
        match skipBlanks t with
        | 44 :: t => readEntries value acc fuel t
        | 125 :: t => some (.table acc, t)
        | _ => none

def readValue : (depth : Nat) → ValueReader
  | depth, t =>
    match skipBlanks t with
    | 91 :: t =>
      match depth with
      | 0 => none
      | d + 1 =>
        match skipBlanks t with
        | 93 :: t => some (.list [], t)
        | _ => readItems (readValue d) [] (t.length + 1) t
    | 123 :: t =>
      match depth with
      | 0 => none
      | d + 1 =>
        match skipBlanks t with
        | 125 :: t => some (.table [], t)
        | _ => readEntries (readValue d) [] (t.length + 1) t
    | 34 :: t => (readString? [] (t.length + 1) t).map fun p => (.text p.1, p.2)
    | b :: t => if b = 45 || Text.isDigit b then number? (b :: t) else literal? (b :: t)
    | [] => none

end Toolpath.Json

namespace Toolpath

def Document.ofJson? (t : Text) : Option Document :=
  match Json.readValue Json.depthLimit t with
  | some (d, rest) => if Json.skipBlanks rest = [] then some d else none
  | none => none

end Toolpath
