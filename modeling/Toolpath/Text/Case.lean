import Toolpath.Text.Symbol

/-!
# Letter case

The simple case mappings: one character to one character, so `ß` has no upper
case here. A span holds every `stride`-th code point from `first` to `last`,
all moved by the same distance.
-/

namespace Toolpath.Case

structure Span where
  first : Nat
  last : Nat
  stride : Nat
  shift : Int
deriving Repr

def Span.holds (s : Span) (n : Nat) : Bool :=
  s.first ≤ n && n ≤ s.last && (n - s.first) % s.stride = 0

def shifted (spans : List Span) (c : Char) : Char :=
  match spans.find? fun s => s.holds c.toNat with
  | some s => Char.ofNat (c.toNat + s.shift).toNat
  | none => c

/-- The spans of a table, from `n` on. Of each it has the distance from the one before it, the
number of steps to its last code point, the stride and the shift. -/
def spansFrom (n : Nat) : List (Nat × Nat × Nat × Int) → List Span
  | [] => []
  | (gap, steps, stride, shift) :: runs =>
    let first := n + gap
    let last := first + steps * stride
    ⟨first, last, stride, shift⟩ :: spansFrom (last + 1) runs

def upperRuns1 : List (Nat × Nat × Nat × Int) := [
  (97, 25, 1, -32), (58, 0, 1, 743), (42, 22, 1, -32), (1, 6, 1, -32), (0, 0, 1, 121),
  (1, 23, 2, -1), (1, 0, 1, -232), (1, 2, 2, -1), (2, 7, 2, -1), (2, 22, 2, -1), (2, 2, 2, -1),
  (0, 0, 1, -300), (0, 0, 1, 195), (2, 1, 2, -1), (2, 0, 1, -1), (3, 0, 1, -1), (5, 0, 1, -1),
  (2, 0, 1, 97), (3, 0, 1, -1), (0, 0, 1, 163), (3, 0, 1, 130), (2, 2, 2, -1), (2, 0, 1, -1),
  (4, 0, 1, -1), (2, 0, 1, -1), (3, 1, 2, -1), (2, 0, 1, -1), (3, 0, 1, -1), (1, 0, 1, 56),
  (5, 0, 1, -1), (0, 0, 1, -2), (1, 0, 1, -1), (0, 0, 1, -2), (1, 0, 1, -1), (0, 0, 1, -2),
  (1, 7, 2, -1), (0, 0, 1, -79), (1, 8, 2, -1), (2, 0, 1, -1), (0, 0, 1, -2), (1, 0, 1, -1),
  (3, 19, 2, -1), (3, 8, 2, -1), (8, 0, 1, -1), (2, 1, 1, 10815), (1, 0, 1, -1), (4, 4, 2, -1),
  (0, 0, 1, 10783), (0, 0, 1, 10780), (0, 0, 1, 10782), (0, 0, 1, -210), (0, 0, 1, -206),
  (1, 1, 1, -205), (1, 0, 1, -202), (1, 0, 1, -203), (0, 0, 1, 42319), (3, 0, 1, -205),
  (0, 0, 1, 42315), (1, 0, 1, -207), (1, 0, 1, 42280), (0, 0, 1, 42308), (1, 0, 1, -209),
  (0, 0, 1, -211), (0, 0, 1, 42308), (0, 0, 1, 10743), (0, 0, 1, 42305), (2, 0, 1, -211),
  (1, 0, 1, 10749), (0, 0, 1, -213), (2, 0, 1, -214), (7, 0, 1, 10727), (2, 0, 1, -218),
  (1, 0, 1, 42307), (0, 0, 1, -218), (3, 0, 1, 42282), (0, 0, 1, -218), (0, 0, 1, -69),
  (0, 1, 1, -217), (0, 0, 1, -71), (5, 0, 1, -219), (10, 0, 1, 42261), (0, 0, 1, 42258),
  (166, 0, 1, 84), (43, 1, 2, -1), (3, 0, 1, -1), (3, 2, 1, 130), (46, 0, 1, -38), (0, 2, 1, -37),
  (1, 16, 1, -32), (0, 0, 1, -31), (0, 8, 1, -32), (0, 0, 1, -64), (0, 1, 1, -63), (1, 0, 1, -62),
  (0, 0, 1, -57), (3, 0, 1, -47), (0, 0, 1, -54), (0, 0, 1, -8), (1, 11, 2, -1), (0, 0, 1, -86)]

def upperRuns2 : List (Nat × Nat × Nat × Int) := [
  (0, 0, 1, -80), (0, 0, 1, 7), (0, 0, 1, -116), (1, 0, 1, -96), (2, 0, 1, -1), (2, 0, 1, -1),
  (52, 31, 1, -32), (0, 15, 1, -80), (1, 16, 2, -1), (9, 26, 2, -1), (2, 6, 2, -1), (0, 0, 1, -15),
  (1, 47, 2, -1), (49, 37, 1, -48), (2889, 42, 1, 3008), (2, 2, 1, 3008), (760, 5, 1, -8),
  (2178, 0, 1, -6254), (0, 0, 1, -6253), (0, 0, 1, -6244), (0, 1, 1, -6242), (0, 0, 1, -6243),
  (0, 0, 1, -6236), (0, 0, 1, -6181), (0, 0, 1, 35266), (240, 0, 1, 35332), (3, 0, 1, 3814),
  (16, 0, 1, 35384), (114, 74, 2, -1), (5, 0, 1, -59), (5, 47, 2, -1), (0, 7, 1, 8), (8, 5, 1, 8),
  (10, 7, 1, 8), (8, 7, 1, 8), (8, 5, 1, 8), (11, 3, 2, 8), (8, 7, 1, 8), (8, 1, 1, 74),
  (0, 3, 1, 86), (0, 1, 1, 100), (0, 1, 1, 128), (0, 1, 1, 112), (0, 1, 1, 126), (2, 7, 1, 8),
  (8, 7, 1, 8), (8, 7, 1, 8), (8, 1, 1, 8), (1, 0, 1, 9), (10, 0, 1, -7205), (4, 0, 1, 9),
  (12, 1, 1, 8), (14, 1, 1, 8), (3, 0, 1, 7), (13, 0, 1, 9), (346, 0, 1, -28), (33, 15, 1, -16),
  (4, 0, 1, -1), (843, 25, 1, -26), (1862, 47, 1, -48), (1, 0, 1, -1), (3, 0, 1, -10795),
  (0, 0, 1, -10792), (1, 2, 2, -1), (6, 0, 1, -1), (2, 0, 1, -1), (10, 49, 2, -1), (8, 1, 2, -1),
  (4, 0, 1, -1), (12, 37, 1, -7264), (1, 0, 1, -7264), (5, 0, 1, -7264), (30995, 22, 2, -1),
  (19, 13, 2, -1), (135, 6, 2, -1), (3, 30, 2, -1), (10, 1, 2, -1), (2, 4, 2, -1), (4, 0, 1, -1),
  (4, 1, 2, -1), (0, 0, 1, 48), (2, 9, 2, -1), (11, 7, 2, -1), (4, 1, 2, -1), (6, 0, 1, -1),
  (5, 1, 2, -1), (28, 0, 1, -1), (860, 0, 1, -928), (28, 79, 1, -38864), (21377, 25, 1, -32),
  (1229, 39, 1, -40), (136, 35, 1, -40), (155, 10, 1, -39), (1, 14, 1, -39), (1, 6, 1, -39),
  (1, 1, 1, -39), (1795, 50, 1, -64), (3021, 31, 1, -32), (21888, 31, 1, -32), (31394, 33, 1, -34)]

def upperSpans : List Span := spansFrom 0 (upperRuns1 ++ upperRuns2)

def lowerRuns1 : List (Nat × Nat × Nat × Int) := [
  (65, 25, 1, 32), (101, 22, 1, 32), (1, 6, 1, 32), (33, 23, 2, 1), (1, 0, 1, -199), (1, 2, 2, 1),
  (2, 7, 2, 1), (2, 22, 2, 1), (1, 0, 1, -121), (0, 2, 2, 1), (3, 0, 1, 210), (0, 1, 2, 1),
  (1, 0, 1, 206), (0, 0, 1, 1), (1, 1, 1, 205), (0, 0, 1, 1), (2, 0, 1, 79), (0, 0, 1, 202),
  (0, 0, 1, 203), (0, 0, 1, 1), (1, 0, 1, 205), (0, 0, 1, 207), (1, 0, 1, 211), (0, 0, 1, 209),
  (0, 0, 1, 1), (3, 0, 1, 211), (0, 0, 1, 213), (1, 0, 1, 214), (0, 2, 2, 1), (1, 0, 1, 218),
  (0, 0, 1, 1), (1, 0, 1, 218), (2, 0, 1, 1), (1, 0, 1, 218), (0, 0, 1, 1), (1, 1, 1, 217),
  (0, 1, 2, 1), (1, 0, 1, 219), (0, 0, 1, 1), (3, 0, 1, 1), (7, 0, 1, 2), (0, 0, 1, 1),
  (1, 0, 1, 2), (0, 0, 1, 1), (1, 0, 1, 2), (0, 8, 2, 1), (2, 8, 2, 1), (2, 0, 1, 2), (0, 1, 2, 1),
  (1, 0, 1, -97), (0, 0, 1, -56), (0, 19, 2, 1), (1, 0, 1, -130), (1, 8, 2, 1), (7, 0, 1, 10795),
  (0, 0, 1, 1), (1, 0, 1, -163), (0, 0, 1, 10792), (2, 0, 1, 1), (1, 0, 1, -195), (0, 0, 1, 69),
  (0, 0, 1, 71), (0, 4, 2, 1), (289, 1, 2, 1), (3, 0, 1, 1), (8, 0, 1, 116), (6, 0, 1, 38),
  (1, 2, 1, 37), (1, 0, 1, 64), (1, 1, 1, 63), (1, 16, 1, 32), (1, 8, 1, 32), (35, 0, 1, 8),
  (8, 11, 2, 1), (5, 0, 1, -60), (2, 0, 1, 1), (1, 0, 1, -7), (0, 0, 1, 1), (2, 2, 1, -130),
  (0, 15, 1, 80), (0, 31, 1, 32), (48, 16, 2, 1), (9, 26, 2, 1), (1, 0, 1, 15), (0, 6, 2, 1),
  (2, 47, 2, 1), (2, 37, 1, 48), (2889, 37, 1, 7264), (1, 0, 1, 7264), (5, 0, 1, 7264),
  (722, 79, 1, 38864)]

def lowerRuns2 : List (Nat × Nat × Nat × Int) := [
  (0, 5, 1, 8), (2202, 42, 1, -3008), (2, 2, 1, -3008), (320, 74, 2, 1), (9, 0, 1, -7615),
  (1, 47, 2, 1), (9, 7, 1, -8), (8, 5, 1, -8), (10, 7, 1, -8), (8, 7, 1, -8), (8, 5, 1, -8),
  (11, 3, 2, -8), (8, 7, 1, -8), (24, 7, 1, -8), (8, 7, 1, -8), (8, 7, 1, -8), (8, 1, 1, -8),
  (0, 1, 1, -74), (0, 0, 1, -9), (11, 3, 1, -86), (0, 0, 1, -9), (11, 1, 1, -8), (0, 1, 1, -100),
  (12, 1, 1, -8), (0, 1, 1, -112), (0, 0, 1, -7), (11, 1, 1, -128), (0, 1, 1, -126), (0, 0, 1, -9),
  (297, 0, 1, -7517), (3, 0, 1, -8383), (0, 0, 1, -8262), (6, 0, 1, 28), (45, 15, 1, 16),
  (19, 0, 1, 1), (818, 25, 1, 26), (1840, 47, 1, 48), (48, 0, 1, 1), (1, 0, 1, -10743),
  (0, 0, 1, -3814), (0, 0, 1, -10727), (2, 2, 2, 1), (1, 0, 1, -10780), (0, 0, 1, -10749),
  (0, 0, 1, -10783), (0, 0, 1, -10782), (1, 0, 1, 1), (2, 0, 1, 1), (8, 1, 1, -10815),
  (0, 49, 2, 1), (8, 1, 2, 1), (4, 0, 1, 1), (31053, 22, 2, 1), (19, 13, 2, 1), (135, 6, 2, 1),
  (3, 30, 2, 1), (10, 1, 2, 1), (1, 0, 1, -35332), (0, 4, 2, 1), (4, 0, 1, 1), (1, 0, 1, -42280),
  (2, 1, 2, 1), (3, 9, 2, 1), (1, 0, 1, -42308), (0, 0, 1, -42319), (0, 0, 1, -42315),
  (0, 0, 1, -42305), (0, 0, 1, -42308), (1, 0, 1, -42258), (0, 0, 1, -42282), (0, 0, 1, -42261),
  (0, 0, 1, 928), (0, 7, 2, 1), (1, 0, 1, -48), (0, 0, 1, -42307), (0, 0, 1, -35384), (0, 1, 2, 1),
  (6, 0, 1, 1), (5, 1, 2, 1), (28, 0, 1, 1), (22315, 25, 1, 32), (1221, 39, 1, 40),
  (136, 35, 1, 40), (156, 10, 1, 39), (1, 14, 1, 39), (1, 6, 1, 39), (1, 1, 1, 39),
  (1770, 50, 1, 64), (3053, 31, 1, 32), (21888, 31, 1, 32), (31392, 33, 1, 34)]

def lowerSpans : List Span := spansFrom 0 (lowerRuns1 ++ lowerRuns2)

end Toolpath.Case

namespace Toolpath

def upperChar (c : Char) : Char :=
  if c.toNat < 0x80 then c.toUpper else Case.shifted Case.upperSpans c

def lowerChar (c : Char) : Char :=
  if c.toNat < 0x80 then c.toLower else Case.shifted Case.lowerSpans c

/-- Two characters that differ only in case fold to the same character. The
dotted and the dotless i stand alone. -/
def foldChar (c : Char) : Char :=
  if c.toNat = 0x130 || c.toNat = 0x131 then c else lowerChar (upperChar c)

namespace Text

/-- Upper case, character by character; a stray octet becomes the replacement character. -/
def upper (t : Text) : Text := (symbols t).flatMap fun r => ofChar (upperChar r.char)

def lower (t : Text) : Text := (symbols t).flatMap fun r => ofChar (lowerChar r.char)

def equalFold (s t : Text) : Bool :=
  (symbols s).map (fun r => foldChar r.char) = (symbols t).map (fun r => foldChar r.char)

end Text
end Toolpath
