/-!
# Octet text

Programs, profiles and reports are sequences of octets. Nothing in them is
assumed to be well formed UTF-8: characters are read off the octets where a
rule speaks of characters, and everything else passes through unchanged.
-/

namespace Toolpath

/-- A text is a list of octets. -/
abbrev Text := List UInt8

namespace Text

def ofString (s : String) : Text := s.toUTF8.data.toList

instance : Coe String Text := ⟨ofString⟩

def newline : UInt8 := 10
def carriageReturn : UInt8 := 13
def space : UInt8 := 32
def doubleQuote : UInt8 := 34
def dollar : UInt8 := 36
def singleQuote : UInt8 := 39
def openParen : UInt8 := 40
def closeParen : UInt8 := 41
def comma : UInt8 := 44
def point : UInt8 := 46
def slash : UInt8 := 47
def zero : UInt8 := 48
def backslash : UInt8 := 92
def openBrace : UInt8 := 123
def closeBrace : UInt8 := 125

def isDigit (b : UInt8) : Bool := 48 ≤ b && b ≤ 57
def isUpper (b : UInt8) : Bool := 65 ≤ b && b ≤ 90
def isLower (b : UInt8) : Bool := 97 ≤ b && b ≤ 122

def digitValue (b : UInt8) : Nat := b.toNat - 48

def digit (n : Nat) : UInt8 := (48 + n).toUInt8

def asciiLower (b : UInt8) : UInt8 := if isUpper b then b + 32 else b

def ofNat (n : Nat) : Text := (Nat.toDigits 10 n).map Char.toUInt8

def ofInt : Int → Text
  | .ofNat n => ofNat n
  | .negSucc n => ofString "-" ++ ofNat (n + 1)

def natValue (digits : Text) : Nat := digits.foldl (fun n b => 10 * n + digitValue b) 0

def hexDigit (n : Nat) : UInt8 := if n < 10 then (48 + n).toUInt8 else (87 + n).toUInt8

def hexByte (b : UInt8) : Text := [hexDigit (b.toNat / 16), hexDigit (b.toNat % 16)]

def hex (t : Text) : Text := t.flatMap hexByte

def hexPadded : (width n : Nat) → Text
  | 0, _ => []
  | w + 1, n => hexPadded w (n / 16) ++ [hexDigit (n % 16)]

def hexValue? (b : UInt8) : Option Nat :=
  if isDigit b then some (b.toNat - 48)
  else if 97 ≤ b && b ≤ 102 then some (b.toNat - 87)
  else if 65 ≤ b && b ≤ 70 then some (b.toNat - 55)
  else none

def padLeft (width : Nat) (t : Text) : Text :=
  List.replicate (width - t.length) space ++ t

def padRight (width : Nat) (t : Text) : Text :=
  t ++ List.replicate (width - t.length) space

def join (sep : Text) (ts : List Text) : Text := sep.intercalate ts

def cut? (sep : UInt8) : Text → Option (Text × Text)
  | [] => none
  | b :: t => if b = sep then some ([], t) else (cut? sep t).map fun p => (b :: p.1, p.2)

def dropFront? (t front : Text) : Option Text :=
  if front.isPrefixOf t then some (t.drop front.length) else none

def dropFront (t front : Text) : Text := (dropFront? t front).getD t

def dropBack? (t back : Text) : Option Text :=
  if back.isSuffixOf t then some (t.take (t.length - back.length)) else none

def dropBack (t back : Text) : Text := (dropBack? t back).getD t

def dropWhileBack (p : UInt8 → Bool) (t : Text) : Text := (t.reverse.dropWhile p).reverse

def split (sep : UInt8) (t : Text) : List Text :=
  let (piece, pieces) := t.foldl
    (fun (s : Text × List Text) b =>
      if b = sep then ([], s.1.reverse :: s.2) else (b :: s.1, s.2)) ([], [])
  (piece.reverse :: pieces).reverse

def le : Text → Text → Bool
  | [], _ => true
  | _ :: _, [] => false
  | a :: s, b :: t => if a < b then true else if b < a then false else le s t

def sort (ts : List Text) : List Text := ts.mergeSort le

/-- Replaces, from left to right, each occurrence of a left side by its right
side. At one place the first pair that matches is taken; replaced text is not
looked at again. No left side may be empty. -/
def replaceOnto (acc : Text) (pairs : List (Text × Text)) : Nat → Text → Text
  | _, [] => acc.reverse
  | k + 1, _ :: t => replaceOnto acc pairs k t
  | 0, b :: t =>
    match pairs.find? fun p => p.1.isPrefixOf (b :: t) with
    | some p => replaceOnto (p.2.reverse ++ acc) pairs (p.1.length - 1) t
    | none => replaceOnto (b :: acc) pairs 0 t

def replace (pairs : List (Text × Text)) (t : Text) : Text := replaceOnto [] pairs 0 t

def occursIn (part : Text) : Text → Bool
  | [] => part.isEmpty
  | b :: t => part.isPrefixOf (b :: t) || occursIn part t

end Text
end Toolpath
