import Toolpath.Text.Basic

/-! # Coloured text on a terminal -/

namespace Toolpath

inductive Color
  | red
  | green
  | yellow
  | cyan
  | gray
deriving DecidableEq, Repr

namespace Color

def number : Color → Nat
  | red => 31
  | green => 32
  | yellow => 33
  | cyan => 36
  | gray => 90

def select (n : Nat) : Text := (27 : UInt8) :: 91 :: (Text.ofNat n ++ [109])

def paint (c : Color) (inUse : Bool) (t : Text) : Text :=
  if inUse then select c.number ++ t ++ select 0 else t

end Color
end Toolpath
