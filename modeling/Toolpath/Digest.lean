import Toolpath.Text.Basic

/-!
# BLAKE2b-256

The unkeyed 256 bit digest of a text. The text is cut into blocks of 128
octets; each is mixed into a state of eight words in twelve rounds, together
with the number of octets read so far, and the last block is marked.
-/

namespace Toolpath.Digest

abbrev State := Array UInt64

def initial : State := #[
  0x6A09E667F3BCC908, 0xBB67AE8584CAA73B, 0x3C6EF372FE94F82B, 0xA54FF53A5F1D36F1,
  0x510E527FADE682D1, 0x9B05688C2B3E6C1F, 0x1F83D9ABFB41BD6B, 0x5BE0CD19137E2179]

/-- The order in which a round takes the words of a block; round `r` uses row `r % 10`. -/
def schedule : Array (Array Nat) := #[
  #[0, 1, 2, 3, 4, 5, 6, 7, 8, 9, 10, 11, 12, 13, 14, 15],
  #[14, 10, 4, 8, 9, 15, 13, 6, 1, 12, 0, 2, 11, 7, 5, 3],
  #[11, 8, 12, 0, 5, 2, 15, 13, 10, 14, 3, 6, 7, 1, 9, 4],
  #[7, 9, 3, 1, 13, 12, 11, 14, 2, 6, 5, 10, 4, 0, 15, 8],
  #[9, 0, 5, 7, 2, 4, 10, 15, 14, 1, 11, 12, 6, 8, 3, 13],
  #[2, 12, 6, 10, 0, 11, 8, 3, 4, 13, 7, 5, 15, 14, 1, 9],
  #[12, 5, 1, 15, 14, 13, 4, 10, 0, 7, 6, 3, 9, 2, 8, 11],
  #[13, 11, 7, 14, 12, 1, 3, 9, 5, 0, 15, 4, 8, 6, 2, 10],
  #[6, 15, 14, 9, 11, 3, 0, 8, 12, 2, 13, 7, 1, 4, 10, 5],
  #[10, 2, 8, 4, 7, 6, 1, 5, 15, 11, 9, 14, 3, 12, 13, 0]]

def rotateRight (x : UInt64) (n : UInt64) : UInt64 := (x >>> n) ||| (x <<< (64 - n))

def mix (v : State) (a b c d : Nat) (x y : UInt64) : State :=
  let va := v.getD a 0 + v.getD b 0 + x
  let vd := rotateRight (v.getD d 0 ^^^ va) 32
  let vc := v.getD c 0 + vd
  let vb := rotateRight (v.getD b 0 ^^^ vc) 24
  let va := va + vb + y
  let vd := rotateRight (vd ^^^ va) 16
  let vc := vc + vd
  let vb := rotateRight (vb ^^^ vc) 63
  (((v.setIfInBounds a va).setIfInBounds b vb).setIfInBounds c vc).setIfInBounds d vd

def lanes : List (Nat × Nat × Nat × Nat × Nat) := [
  (0, 0, 4, 8, 12), (1, 1, 5, 9, 13), (2, 2, 6, 10, 14), (3, 3, 7, 11, 15),
  (4, 0, 5, 10, 15), (5, 1, 6, 11, 12), (6, 2, 7, 8, 13), (7, 3, 4, 9, 14)]

def mixRound (block : Array UInt64) (v : State) (r : Nat) : State :=
  let row := schedule.getD (r % 10) #[]
  lanes.foldl (fun v (i, a, b, c, d) =>
    mix v a b c d (block.getD (row.getD (2 * i) 0) 0) (block.getD (row.getD (2 * i + 1) 0) 0)) v

def compress (h : State) (block : Array UInt64) (count : Nat) (last : Bool) : State :=
  let v := h ++ initial
  let v := v.setIfInBounds 12 (v.getD 12 0 ^^^ count.toUInt64)
  let v := v.setIfInBounds 13 (v.getD 13 0 ^^^ (count / Nat.pow 2 64).toUInt64)
  let v := if last then v.setIfInBounds 14 (v.getD 14 0 ^^^ 0xFFFFFFFFFFFFFFFF) else v
  let v := (List.range 12).foldl (mixRound block) v
  (Array.range 8).map fun i => h.getD i 0 ^^^ v.getD i 0 ^^^ v.getD (i + 8) 0

/-- A word from its octets, the lowest first. -/
def word (t : Text) : UInt64 := t.foldr (fun b w => (w <<< 8) ||| b.toUInt64) 0

def octets (w : UInt64) : Text := (List.range 8).map fun i => (w >>> (8 * i).toUInt64).toUInt8

def words (t : Text) : Array UInt64 :=
  (Array.range 16).map fun i => word ((t.drop (8 * i)).take 8)

/-- Takes in a text block by block; what is left at the end, even nothing, is the last block. -/
def absorb (h : State) (count : Nat) (t : Text) : (fuel : Nat) → State
  | 0 => h
  | fuel + 1 =>
    let block := t.take 128
    match t.drop 128 with
    | [] => compress h (words block) (count + block.length) true
    | rest => absorb (compress h (words block) (count + 128) false) (count + 128) rest fuel

def blake2b (t : Text) : Text :=
  let start := initial.setIfInBounds 0 (initial.getD 0 0 ^^^ 0x01010020)
  let h := absorb start 0 t (t.length / 128 + 1)
  (h.toList.take 4).flatMap octets

end Toolpath.Digest
