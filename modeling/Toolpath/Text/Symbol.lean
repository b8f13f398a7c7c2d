import Toolpath.Text.Basic

/-!
# Symbols

A text is read as symbols: well formed UTF-8 sequences stand for their
characters, and every octet that begins no such sequence is a stray octet of
its own. A stray octet counts as the replacement character wherever a rule
asks for a character. `symbols` loses nothing: the octets of the symbols are the
text.
-/

namespace Toolpath

inductive Symbol
  | scalar (c : Char)
  | stray (b : UInt8)
deriving DecidableEq, Repr

namespace Symbol

def replacement : Char := Char.ofNat 0xFFFD

def char : Symbol → Char
  | scalar c => c
  | stray _ => replacement

def code (r : Symbol) : Nat := r.char.toNat

def bytes : Symbol → Text
  | scalar c => String.utf8EncodeChar c
  | stray b => [b]

def width : Symbol → Nat
  | scalar c => if c.toNat < 0x80 then 1 else if c.toNat < 0x800 then 2
      else if c.toNat < 0x10000 then 3 else 4
  | stray _ => 1

def isStray : Symbol → Bool
  | scalar _ => false
  | stray _ => true

end Symbol

namespace Text

def isTrail (b : UInt8) : Bool := 0x80 ≤ b && b ≤ 0xBF

def secondRange (lead : UInt8) : UInt8 × UInt8 :=
  if lead = 0xE0 then (0xA0, 0xBF)
  else if lead = 0xED then (0x80, 0x9F)
  else if lead = 0xF0 then (0x90, 0xBF)
  else if lead = 0xF4 then (0x80, 0x8F)
  else (0x80, 0xBF)

def isSecond (lead b : UInt8) : Bool := (secondRange lead).1 ≤ b && b ≤ (secondRange lead).2

/-- The number of octets that a lead octet announces; zero for an octet that leads nothing. -/
def announced (lead : UInt8) : Nat :=
  if lead < 0x80 then 1
  else if lead < 0xC2 then 0
  else if lead < 0xE0 then 2
  else if lead < 0xF0 then 3
  else if lead < 0xF5 then 4
  else 0

def trailBits (b : UInt8) : Nat := b.toNat % 64

def firstSymbol (a : UInt8) (t : Text) : Symbol :=
  match announced a, t with
  | 1, _ => .scalar (Char.ofNat a.toNat)
  | 2, b :: _ =>
    if isSecond a b then .scalar (Char.ofNat (a.toNat % 32 * 64 + trailBits b)) else .stray a
  | 3, b :: c :: _ =>
    if isSecond a b && isTrail c then
      .scalar (Char.ofNat (a.toNat % 16 * 4096 + trailBits b * 64 + trailBits c))
    else .stray a
  | 4, b :: c :: d :: _ =>
    if isSecond a b && isTrail c && isTrail d then
      .scalar (Char.ofNat
        (a.toNat % 8 * 262144 + trailBits b * 4096 + trailBits c * 64 + trailBits d))
    else .stray a
  | _, _ => .stray a

def symbolsOnto (acc : List Symbol) : (skip : Nat) → Text → List Symbol
  | _, [] => acc.reverse
  | 0, a :: t => symbolsOnto (firstSymbol a t :: acc) ((firstSymbol a t).width - 1) t
  | k + 1, _ :: t => symbolsOnto acc k t

def symbols (t : Text) : List Symbol := symbolsOnto [] 0 t

def ofSymbols (rs : List Symbol) : Text := rs.flatMap Symbol.bytes

def ofChar (c : Char) : Text := String.utf8EncodeChar c

def isUtf8 (t : Text) : Bool := (symbols t).all fun r => !r.isStray

/-- Stray octets become replacement characters. -/
def scrub (t : Text) : Text := (symbols t).flatMap fun r => ofChar r.char

def symbolCount (t : Text) : Nat := (symbols t).length

/-- Whether the octets form a whole symbol, or can never become one; only a
proper beginning of a well formed sequence is not full. -/
def isFullSymbol : Text → Bool
  | [] => false
  | a :: t =>
    match announced a, t with
    | 2, [] => false
    | 3, [] => false
    | 3, [b] => !isSecond a b
    | 4, [] => false
    | 4, [b] => !isSecond a b
    | 4, [b, c] => !(isSecond a b && isTrail c)
    | _, _ => true

end Text
end Toolpath
