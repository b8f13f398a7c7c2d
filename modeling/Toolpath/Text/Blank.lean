import Toolpath.Text.Symbol

/-!
# Blanks

The white space characters, and the texts without blanks at one or both ends.
-/

namespace Toolpath

/-- The characters with the White_Space property. -/
def isBlank (c : Char) : Bool :=
  let n := c.toNat
  (9 ≤ n && n ≤ 13) || n == 0x20 || n == 0x85 || n == 0xA0 || n == 0x1680 ||
    (0x2000 ≤ n && n ≤ 0x200A) || n == 0x2028 || n == 0x2029 || n == 0x202F || n == 0x205F ||
    n == 0x3000

namespace Text

/-- A stray octet is no blank. -/
def symbolIsBlank (r : Symbol) : Bool := isBlank r.char

def trimLeft (t : Text) : Text := ofSymbols ((symbols t).dropWhile symbolIsBlank)

def trimRight (t : Text) : Text := ofSymbols ((symbols t).reverse.dropWhile symbolIsBlank).reverse

def trim (t : Text) : Text := trimLeft (trimRight t)

def isAllBlank (t : Text) : Bool := (symbols t).all symbolIsBlank

end Text
end Toolpath
