import Toolpath.Text.Symbol

/-!
# Repairing UTF-8

The longest beginning of a character that is not completed becomes one
replacement character, and so does every octet that begins none.
-/

namespace Toolpath.Utf8

def byteOrderMark : Text := [0xEF, 0xBB, 0xBF]

/-- The octets from `a` on that form the beginning of a character, when they form no whole one. -/
def brokenWidth (a : UInt8) (t : Text) : Nat :=
  match Text.announced a, t with
  | 3, b :: _ => if Text.isSecond a b then 2 else 1
  | 4, b :: t =>
    if Text.isSecond a b then
      match t with
      | c :: _ => if Text.isTrail c then 3 else 2
      | [] => 2
    else 1
  | _, _ => 1

def repairOnto (acc : List Char) : (skip : Nat) → Text → List Char
  | _, [] => acc.reverse
  | k + 1, _ :: t => repairOnto acc k t
  | 0, a :: t =>
    match Text.firstSymbol a t with
    | .scalar c => repairOnto (c :: acc) ((Symbol.scalar c).width - 1) t
    | .stray _ => repairOnto (Symbol.replacement :: acc) (brokenWidth a t - 1) t

def repair (t : Text) : Text := (repairOnto [] 0 t).flatMap Text.ofChar

end Toolpath.Utf8
