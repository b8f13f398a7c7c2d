import Toolpath.Text.Symbol
import Toolpath.Text.Printable

/-!
# Quoted text

A text between double quotes. Printable characters stand for themselves, the
quote and the backslash are escaped by a backslash, the usual control
characters have their letters, and everything else is written in hexadecimal:
stray octets and ASCII as `\x`, other characters as `\u` or `\U`.
-/

namespace Toolpath.Text

def controlLetter? (n : Nat) : Option String :=
  match n with
  | 7 => some "a"
  | 8 => some "b"
  | 9 => some "t"
  | 10 => some "n"
  | 11 => some "v"
  | 12 => some "f"
  | 13 => some "r"
  | _ => none

def escaped (mark : UInt8) : Symbol → Text
  | .stray b => backslash :: ofString "x" ++ hexByte b
  | .scalar c =>
    let n := c.toNat
    if n = mark.toNat || n = backslash.toNat then backslash :: ofChar c
    else if isPrintable c then ofChar c
    else match controlLetter? n with
      | some l => backslash :: ofString l
      | none =>
        if n < 0x80 then backslash :: ofString "x" ++ hexPadded 2 n
        else if n < 0x10000 then backslash :: ofString "u" ++ hexPadded 4 n
        else backslash :: ofString "U" ++ hexPadded 8 n

def quoted (t : Text) : Text :=
  doubleQuote :: (symbols t).flatMap (escaped doubleQuote) ++ [doubleQuote]

def singleQuoted (t : Text) : Text :=
  singleQuote :: (symbols t).flatMap (escaped singleQuote) ++ [singleQuote]

end Toolpath.Text
