import Toolpath.Cbor.Item

/-!
# Reading data items

`Item.read` takes one well-formed item off the front of a text. It allows any
width of an argument, and lengths and counts that are only ended by a break.
Arrays and maps nest to a limited depth, as do tags upon tags, and have a
limited number of items.
-/

namespace Toolpath.Cbor

inductive Fault
  /-- The text ends inside the item. -/
  | truncated
  | syntactic
  | tooDeep
  | tooManyItems
  | tooManyPairs
  /-- A length that no memory can hold. -/
  | tooLong
deriving DecidableEq, Repr

def depthLimit : Nat := 4
def itemLimit : Nat := 1048576
def pairLimit : Nat := 131072

structure Head where
  kind : Nat
  /-- The lower five bits of the first octet: a small argument or its width. -/
  form : Nat
  argument : Nat
deriving DecidableEq, Repr

def openForm : Nat := 31

def breakOctet : UInt8 := 0xFF

def kindOf (b : UInt8) : Nat := b.toNat / 32
def formOf (b : UInt8) : Nat := b.toNat % 32

def readOctets (n : Nat) (t : Text) : Except Fault (Text × Text) :=
  let front := t.take n
  if front.length < n then .error .truncated else .ok (front, t.drop n)

def Head.read : Text → Except Fault (Head × Text)
  | [] => .error .truncated
  | b :: t =>
    let kind := kindOf b
    let form := formOf b
    if form < 24 then .ok (⟨kind, form, form⟩, t)
    else if form < 28 then
      match readOctets (Nat.pow 2 (form - 24)) t with
      | .error e => .error e
      | .ok (front, t) =>
        let argument := ofBigEndian front
        if kind = 7 && form = 24 && argument < 32 then .error .syntactic
        else .ok (⟨kind, form, argument⟩, t)
    else if form = openForm then
      if kind = 0 || kind = 1 || kind = 6 || kind = 7 then .error .syntactic
      else .ok (⟨kind, form, form⟩, t)
    else .error .syntactic

def readString (n : Nat) (t : Text) : Except Fault (Text × Text) :=
  if Nat.pow 2 63 ≤ n then .error .tooLong else readOctets n t

def readChunks (kind : Nat) : (fuel : Nat) → (chunks : List Text) → Text →
    Except Fault (List Text × Text)
  | 0, _, _ => .error .truncated
  | _ + 1, _, [] => .error .truncated
  | fuel + 1, chunks, b :: t =>
    if b = breakOctet then .ok (chunks.reverse, t)
    else if kindOf b ≠ kind || formOf b = openForm then .error .syntactic
    else
      match Head.read (b :: t) with
      | .error e => .error e
      | .ok (h, t) =>
        match readString h.argument t with
        | .error e => .error e
        | .ok (chunk, t) => readChunks kind fuel (chunk :: chunks) t

abbrev ItemReader := Text → Except Fault (Item × Text)

def readMany (read : ItemReader) : (count : Nat) → (items : List Item) → Text →
    Except Fault (List Item × Text)
  | 0, items, t => .ok (items.reverse, t)
  | n + 1, items, t =>
    match read t with
    | .error e => .error e
    | .ok (x, t) => readMany read n (x :: items) t

/-- Items up to the break; `check` looks at how many there are so far. -/
def readOpen (read : ItemReader) (check : Nat → Option Fault) :
    (fuel count : Nat) → (items : List Item) → Text → Except Fault (List Item × Text)
  | 0, _, _, _ => .error .truncated
  | _ + 1, _, _, [] => .error .truncated
  | fuel + 1, count, items, b :: t =>
    if b = breakOctet then .ok (items.reverse, t)
    else
      match read (b :: t) with
      | .error e => .error e
      | .ok (x, t) =>
        match check (count + 1) with
        | some e => .error e
        | none => readOpen read check fuel (count + 1) (x :: items) t

def arrayFault (count : Nat) : Option Fault :=
  if itemLimit < count then some .tooManyItems else none

def mapFault (count : Nat) : Option Fault :=
  if count % 2 = 0 && pairLimit < count / 2 then some .tooManyPairs else none

def readArray (read : ItemReader) (h : Head) (t : Text) : Except Fault (Item × Text) :=
  let items : Except Fault (List Item × Text) :=
    if h.form = openForm then readOpen read arrayFault (t.length + 1) 0 [] t
    else if Nat.pow 2 63 ≤ h.argument then .error .tooLong
    else if itemLimit < h.argument then .error .tooManyItems
    else readMany read h.argument [] t
  items.map fun (items, t) => (.array items, t)

def readMap (read : ItemReader) (h : Head) (t : Text) : Except Fault (Item × Text) :=
  if h.form = openForm then
    match readOpen read mapFault (t.length + 1) 0 [] t with
    | .error e => .error e
    | .ok (items, t) =>
      if items.length % 2 = 1 then .error .syntactic else .ok (.map items, t)
  else if Nat.pow 2 63 ≤ h.argument then .error .tooLong
  else if pairLimit < h.argument then .error .tooManyPairs
  else (readMany read (2 * h.argument) [] t).map fun (items, t) => (.map items, t)

def readFloat (h : Head) : Item :=
  if h.form = 25 then .float (Number.ofMagnitude (Number.half.unpack h.argument))
  else if h.form = 26 then .float (Number.ofMagnitude (Number.single.unpack h.argument))
  else .float (Float.ofBits h.argument.toUInt64)

/-- The tags behind a first tag. Each of them is one level of nesting. -/
def readTags : (levels : Nat) → Text → Except Fault (List Nat × Nat × Text)
  | levels, t =>
    match t with
    | [] => .error .truncated
    | b :: _ =>
      if kindOf b ≠ 6 then .ok ([], levels, t)
      else
        match Head.read t with
        | .error e => .error e
        | .ok (h, t) =>
          match levels with
          | 0 => .error .tooDeep
          | l + 1 => (readTags l t).map fun (ns, l, t) => (h.argument :: ns, l, t)

def readContent (read : Nat → ItemReader) (levels : Nat) (h : Head) (t : Text) :
    Except Fault (Item × Text) :=
  match h.kind with
  | 0 => .ok (.unsigned h.argument, t)
  | 1 => .ok (.negative h.argument, t)
  | 2 =>
    if h.form = openForm then
      (readChunks 2 (t.length + 1) [] t).map fun (chunks, t) => (.bytes chunks.flatten, t)
    else (readString h.argument t).map fun (s, t) => (.bytes s, t)
  | 3 =>
    if h.form = openForm then
      (readChunks 3 (t.length + 1) [] t).map fun (chunks, t) => (.text chunks, t)
    else (readString h.argument t).map fun (s, t) => (.text [s], t)
  | 4 =>
    match levels with
    | 0 => .error .tooDeep
    | l + 1 => readArray (read l) h t
  | 5 =>
    match levels with
    | 0 => .error .tooDeep
    | l + 1 => readMap (read l) h t
  | _ => .ok (if h.form < 25 then .simple h.argument else readFloat h, t)

/-- Reads an item with this many levels of nesting. `steps` is more than the levels. -/
def readItem : (steps levels : Nat) → ItemReader
  | 0, _ => fun _ => .error .tooDeep
  | steps + 1, levels => fun t =>
    match Head.read t with
    | .error e => .error e
    | .ok (h, t) =>
      if h.kind = 6 then
        match readTags levels t with
        | .error e => .error e
        | .ok (ns, levels, t) =>
          match Head.read t with
          | .error e => .error e
          | .ok (inner, t) =>
            (readContent (readItem steps) levels inner t).map fun (x, t) =>
              ((h.argument :: ns).foldr Item.tagged x, t)
      else readContent (readItem steps) levels h t

def Item.read : ItemReader := readItem (depthLimit + 1) depthLimit

end Toolpath.Cbor
