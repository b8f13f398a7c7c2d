import Toolpath.Number.Binary
import Toolpath.Text.Basic

/-!
# Data items

The items of the concise binary object representation, and the shortest
octets that stand for one. Every item begins with a head: three bits say what
kind of item it is, and an argument gives a number, a length or a count.
-/

namespace Toolpath.Cbor

inductive Item
  | unsigned (n : Nat)
  /-- The number `-1 - n`. -/
  | negative (n : Nat)
  | bytes (octets : Text)
  /-- A text; it may come in several chunks. -/
  | text (chunks : List Text)
  | array (items : List Item)
  /-- Keys and values in turn. -/
  | map (items : List Item)
  | tagged (number : Nat) (content : Item)
  | simple (code : Nat)
  | float (x : Float)

def bigEndian : (width n : Nat) → Text
  | 0, _ => []
  | w + 1, n => bigEndian w (n / 256) ++ [n.toUInt8]

def ofBigEndian (t : Text) : Nat := t.foldl (fun n b => n * 256 + b.toNat) 0

def head (kind argument : Nat) : Text :=
  if argument < 24 then [(kind * 32 + argument).toUInt8]
  else if argument < Nat.pow 2 8 then (kind * 32 + 24).toUInt8 :: bigEndian 1 argument
  else if argument < Nat.pow 2 16 then (kind * 32 + 25).toUInt8 :: bigEndian 2 argument
  else if argument < Nat.pow 2 32 then (kind * 32 + 26).toUInt8 :: bigEndian 4 argument
  else (kind * 32 + 27).toUInt8 :: bigEndian 8 argument

def fits (f : Number.BinaryFormat) (x : Float) : Bool :=
  (Number.ofMagnitude (f.unpack (f.bits x))).toBits = x.toBits

def floatOctets (x : Float) : Text :=
  if Number.isNan x then [0xF9, 0x7E, 0x00]
  else if fits Number.half x then 0xF9 :: bigEndian 2 (Number.half.bits x)
  else if fits Number.single x then 0xFA :: bigEndian 4 (Number.single.bits x)
  else 0xFB :: bigEndian 8 x.toBits.toNat

mutual

def Item.encode : Item → Text
  | .unsigned n => head 0 n
  | .negative n => head 1 n
  | .bytes t => head 2 t.length ++ t
  | .text chunks => head 3 chunks.flatten.length ++ chunks.flatten
  | .array items => head 4 items.length ++ encodeAll items
  | .map items => head 5 (items.length / 2) ++ encodeAll items
  | .tagged n content => head 6 n ++ content.encode
  | .simple code => head 7 code
  | .float x => floatOctets x

def encodeAll : List Item → Text
  | [] => []
  | x :: xs => x.encode ++ encodeAll xs

end

end Toolpath.Cbor
