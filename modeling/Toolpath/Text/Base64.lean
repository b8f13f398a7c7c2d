import Toolpath.Text.Basic

/-!
# Octets in base 64

Three octets are written as four characters of six bits each. The last group
may stand for one or two octets and is then filled with equals signs. Line
breaks may stand anywhere.
-/

namespace Toolpath.Base64

def sextet? (b : UInt8) : Option Nat :=
  if 65 ≤ b && b ≤ 90 then some (b.toNat - 65)
  else if 97 ≤ b && b ≤ 122 then some (b.toNat - 71)
  else if 48 ≤ b && b ≤ 57 then some (b.toNat + 4)
  else if b = 43 then some 62
  else if b = 47 then some 63
  else none

def group? (a b c d : UInt8) : Option Nat := do
  return (((← sextet? a) * 64 + (← sextet? b)) * 64 + (← sextet? c)) * 64 + (← sextet? d)

def octets (n : Nat) : Text := [(n / 65536).toUInt8, (n / 256).toUInt8, n.toUInt8]

/-- Groups without line breaks. Bits that belong to no octet are ignored. -/
def groups? : Text → Option Text
  | [] => some []
  | [a, b, 61, 61] => (group? a b 65 65).map fun n => (octets n).take 1
  | [a, b, c, 61] => (group? a b c 65).map fun n => (octets n).take 2
  | a :: b :: c :: d :: t => do
    let n ← group? a b c d
    return octets n ++ (← groups? t)
  | _ => none

def decode? (t : Text) : Option Text := groups? (t.filter fun b => b ≠ 10 && b ≠ 13)

end Toolpath.Base64
