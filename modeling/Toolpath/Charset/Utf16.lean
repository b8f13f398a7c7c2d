import Toolpath.Text.Symbol

/-!
# UTF-16

Two octets make a unit, two surrogate units make a character. A surrogate
without its partner becomes the replacement character, as do two trailing
surrogates in a row, taken together, and an odd octet at the end.
-/

namespace Toolpath

inductive ByteOrder
  | little
  | big
deriving DecidableEq, Repr

namespace Utf16

def unit (order : ByteOrder) (a b : UInt8) : Nat :=
  match order with
  | .little => a.toNat + 256 * b.toNat
  | .big => 256 * a.toNat + b.toNat

def isSurrogate (u : Nat) : Bool := 0xD800 ≤ u && u < 0xE000
def isTrailing (u : Nat) : Bool := 0xDC00 ≤ u && u < 0xE000

def pair (u v : Nat) : Char :=
  if u < 0xDC00 then Char.ofNat (0x10000 + (u - 0xD800) * 0x400 + (v - 0xDC00))
  else Symbol.replacement

def single (u : Nat) : Char := if isSurrogate u then Symbol.replacement else Char.ofNat u

def charsOnto (order : ByteOrder) (acc : List Char) : Text → List Char
  | [] => acc.reverse
  | [_] => (Symbol.replacement :: acc).reverse
  | a :: b :: c :: d :: t =>
    let u := unit order a b
    let v := unit order c d
    if isSurrogate u && isTrailing v then charsOnto order (pair u v :: acc) t
    else charsOnto order (single u :: acc) (c :: d :: t)
  | a :: b :: t => charsOnto order (single (unit order a b) :: acc) t
termination_by structural t => t

def decode (order : ByteOrder) (t : Text) : Text := (charsOnto order [] t).flatMap Text.ofChar

end Utf16
end Toolpath
