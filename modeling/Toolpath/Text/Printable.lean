import Toolpath.Text.Letter

/-!
# Printable characters

Letters, marks, numbers, punctuation and symbols, and the plain space. Every
other character is written as an escape when a text is quoted.
-/

namespace Toolpath.Printable

def runs1 : List (Nat × Nat) := [
  (32, 95), (34, 12), (1, 714), (2, 6), (4, 7), (1, 1), (1, 20), (1, 397), (1, 38), (2, 50),
  (2, 3), (1, 55), (8, 27), (4, 6), (17, 22), (1, 192), (1, 48), (2, 59), (2, 101), (14, 59),
  (2, 49), (2, 15), (1, 28), (2, 1), (1, 11), (5, 31), (9, 74), (1, 161), (1, 8), (2, 2), (2, 22),
  (1, 7), (1, 1), (3, 4), (2, 9), (2, 2), (2, 4), (8, 1), (4, 2), (1, 5), (2, 25), (2, 3), (1, 6),
  (4, 2), (2, 22), (1, 7), (1, 2), (1, 2), (1, 2), (2, 1), (1, 5), (4, 2), (2, 3), (3, 1), (7, 4),
  (1, 1), (7, 17), (10, 3), (1, 9), (1, 3), (1, 22), (1, 7), (1, 2), (1, 5), (2, 10), (1, 3),
  (1, 3), (2, 1), (15, 4), (2, 12), (7, 7), (1, 3), (1, 8), (2, 2), (2, 22), (1, 7), (1, 2),
  (1, 5), (2, 9), (2, 2), (2, 3), (7, 3), (4, 2), (1, 5), (2, 18), (10, 2), (1, 6), (3, 3), (1, 4),
  (3, 2), (1, 1), (1, 2), (3, 2), (3, 3), (3, 12), (4, 5), (3, 3), (1, 4), (2, 1), (6, 1),
  (14, 21), (5, 13), (1, 3), (1, 23), (1, 16), (2, 9), (1, 3), (1, 4), (7, 2), (1, 3), (2, 1),
  (2, 4), (2, 10), (7, 22), (1, 3), (1, 23), (1, 10), (1, 5), (2, 9)]

def runs2 : List (Nat × Nat) := [
  (1, 3), (1, 4), (7, 2), (6, 2), (1, 4), (2, 10), (1, 3), (12, 13), (1, 3), (1, 51), (1, 3),
  (1, 6), (4, 16), (2, 26), (1, 3), (1, 18), (3, 24), (1, 9), (1, 1), (2, 7), (3, 1), (4, 6),
  (1, 1), (1, 8), (6, 10), (2, 3), (12, 58), (4, 29), (37, 2), (1, 1), (1, 5), (1, 24), (1, 1),
  (1, 23), (2, 5), (1, 1), (1, 7), (1, 10), (2, 4), (32, 72), (1, 36), (4, 39), (1, 36), (1, 15),
  (1, 13), (37, 198), (1, 1), (5, 1), (2, 377), (1, 4), (2, 7), (1, 1), (1, 4), (2, 41), (1, 4),
  (2, 33), (1, 4), (2, 7), (1, 1), (1, 4), (2, 15), (1, 57), (1, 4), (2, 67), (2, 32), (3, 26),
  (6, 86), (2, 6), (2, 640), (1, 28), (3, 89), (7, 22), (9, 24), (9, 20), (12, 13), (1, 3), (1, 2),
  (12, 94), (2, 10), (6, 10), (6, 14), (1, 11), (6, 89), (7, 43), (5, 70), (10, 31), (1, 12),
  (4, 12), (4, 1), (3, 42), (2, 5), (11, 44), (4, 26), (6, 11), (3, 62), (2, 65), (1, 29), (2, 11),
  (6, 10), (6, 14), (2, 31), (49, 77), (3, 47), (1, 116), (8, 60), (3, 15), (3, 60), (7, 43),
  (2, 11), (8, 43), (5, 534), (2, 6), (2, 38), (2, 6), (2, 8), (1, 1), (1, 1), (1, 1), (1, 31)]

def runs3 : List (Nat × Nat) := [
  (2, 53), (1, 15), (1, 14), (2, 6), (1, 19), (2, 3), (1, 9), (17, 24), (8, 47), (17, 2), (2, 27),
  (1, 13), (3, 33), (15, 33), (15, 140), (4, 663), (25, 11), (21, 1812), (2, 32), (1, 349),
  (5, 45), (1, 1), (5, 1), (2, 56), (7, 2), (14, 24), (9, 7), (1, 7), (1, 7), (1, 7), (1, 7),
  (1, 7), (1, 7), (1, 7), (1, 126), (34, 26), (1, 89), (12, 214), (26, 12), (5, 63), (1, 86),
  (2, 103), (5, 43), (1, 94), (1, 84), (12, 47), (1, 29293), (3, 55), (9, 348), (20, 184),
  (8, 203), (5, 2), (1, 1), (1, 5), (24, 59), (3, 10), (6, 56), (8, 70), (8, 12), (6, 116),
  (11, 30), (3, 78), (1, 11), (4, 33), (1, 55), (9, 14), (2, 10), (2, 103), (24, 28), (10, 6),
  (2, 6), (2, 6), (9, 7), (1, 7), (1, 60), (4, 126), (2, 10), (6, 11172), (12, 23), (4, 49),
  (8452, 366), (2, 106), (38, 7), (12, 5), (5, 26), (1, 5), (1, 1), (1, 2), (1, 2), (1, 125),
  (16, 445), (2, 54), (7, 1), (32, 42), (6, 51), (1, 19), (1, 4), (4, 5), (1, 135), (4, 190),
  (3, 6), (2, 6), (2, 6), (2, 3), (3, 7), (1, 7), (13, 2), (2, 12), (1, 26), (1, 19), (1, 2),
  (1, 15), (2, 14), (34, 123), (5, 3), (4, 45), (3, 88), (1, 13), (3, 1)]

def runs4 : List (Nat × Nat) := [
  (47, 46), (130, 29), (3, 49), (15, 28), (4, 36), (9, 30), (5, 43), (5, 30), (1, 37), (4, 14),
  (42, 158), (2, 10), (6, 36), (4, 36), (4, 40), (8, 52), (11, 12), (1, 15), (1, 7), (1, 2),
  (1, 11), (1, 15), (1, 7), (1, 2), (67, 311), (9, 22), (10, 8), (24, 6), (1, 42), (1, 9), (69, 6),
  (2, 1), (1, 44), (1, 2), (3, 1), (2, 23), (1, 72), (8, 9), (48, 19), (1, 2), (5, 33), (3, 27),
  (5, 1), (64, 56), (4, 20), (2, 50), (1, 2), (5, 8), (1, 3), (1, 29), (2, 3), (4, 10), (7, 9),
  (7, 64), (32, 39), (4, 12), (9, 54), (3, 29), (2, 27), (5, 26), (7, 4), (12, 7), (80, 73),
  (55, 51), (13, 51), (7, 46), (8, 10), (294, 31), (1, 42), (1, 3), (2, 2), (75, 43), (8, 42),
  (22, 26), (38, 28), (20, 23), (9, 78), (4, 36), (9, 62), (1, 5), (13, 25), (7, 10), (6, 53),
  (1, 18), (8, 39), (9, 96), (1, 20), (11, 18), (1, 47), (62, 7), (1, 1), (1, 4), (1, 15), (1, 11),
  (6, 59), (5, 10), (6, 4), (1, 8), (2, 2), (2, 22), (1, 7), (1, 2), (1, 5), (1, 10), (2, 2),
  (2, 3), (2, 1), (6, 1), (5, 7), (2, 7), (3, 5), (139, 92), (1, 5), (30, 72), (8, 10), (166, 54),
  (2, 38), (34, 69), (11, 10)]

def runs5 : List (Nat × Nat) := [
  (6, 13), (19, 58), (6, 10), (54, 27), (2, 15), (4, 23), (185, 60), (100, 83), (12, 8), (2, 1),
  (2, 8), (1, 2), (1, 30), (1, 2), (2, 12), (9, 10), (70, 8), (2, 46), (2, 11), (27, 72), (8, 83),
  (13, 73), (7, 10), (246, 9), (1, 45), (1, 14), (10, 29), (3, 32), (2, 22), (1, 14), (73, 7),
  (1, 2), (1, 44), (3, 1), (1, 2), (1, 9), (8, 10), (6, 6), (1, 2), (1, 37), (1, 2), (1, 6),
  (7, 10), (310, 25), (7, 17), (1, 41), (3, 28), (86, 1), (15, 50), (13, 923), (102, 111), (1, 5),
  (11, 196), (2636, 99), (13, 1072), (16, 22), (4010, 583), (8633, 569), (7, 31), (1, 10), (4, 81),
  (1, 10), (6, 30), (2, 6), (10, 70), (10, 10), (1, 7), (1, 21), (5, 19), (688, 91), (101, 75),
  (4, 57), (7, 17), (64, 5), (11, 2), (14, 6136), (8, 1238), (42, 9), (8935, 4), (1, 7), (1, 2),
  (1, 291), (15, 1), (29, 3), (2, 1), (14, 4), (8, 396), (2308, 107), (5, 13), (3, 9), (7, 10),
  (2, 4), (4704, 46), (2, 23), (9, 116), (60, 246), (10, 39), (2, 74), (8, 112), (21, 70),
  (122, 20), (12, 20), (12, 87), (9, 25), (135, 85), (1, 71), (1, 2), (2, 1), (2, 2), (2, 4),
  (1, 12), (1, 1), (1, 7), (1, 65), (1, 4), (2, 8), (1, 7), (1, 28), (1, 4)]

def runs6 : List (Nat × Nat) := [
  (1, 5), (1, 1), (3, 7), (1, 340), (2, 292), (2, 702), (15, 5), (1, 15), (1104, 31), (6, 6),
  (213, 7), (1, 17), (2, 7), (1, 2), (1, 5), (5, 62), (33, 1), (112, 45), (3, 14), (2, 10), (4, 2),
  (320, 31), (17, 58), (5, 1), (464, 42), (742, 7), (1, 4), (1, 2), (1, 15), (1, 197), (2, 16),
  (41, 76), (4, 10), (4, 2), (785, 68), (76, 61), (194, 4), (1, 27), (1, 2), (1, 1), (2, 1),
  (1, 10), (1, 4), (1, 1), (1, 1), (6, 1), (4, 1), (1, 1), (1, 1), (1, 3), (1, 2), (1, 1), (2, 1),
  (1, 1), (1, 1), (1, 1), (1, 1), (1, 2), (1, 1), (2, 4), (1, 7), (1, 4), (1, 4), (1, 1), (1, 10),
  (1, 17), (5, 3), (1, 5), (1, 17), (52, 2), (270, 44), (4, 100), (12, 15), (2, 15), (1, 15),
  (1, 37), (10, 174), (56, 29), (13, 44), (4, 9), (7, 2), (14, 6), (154, 984), (4, 17), (3, 13),
  (3, 119), (4, 95), (6, 12), (4, 1), (15, 12), (4, 56), (8, 10), (6, 40), (8, 30), (2, 2),
  (78, 340), (12, 14), (2, 13), (3, 9), (7, 46), (1, 7), (8, 14), (4, 9), (7, 9), (7, 147),
  (1, 55), (37, 10), (1030, 42720), (32, 4153), (7, 222), (2, 5762), (14, 7473), (3103, 542),
  (1506, 4939), (5, 4192), (712016, 240)]

def ranges : List (Nat × Nat) := rangesFrom 0 (runs1 ++ runs2 ++ runs3 ++ runs4 ++ runs5 ++ runs6)

end Toolpath.Printable

namespace Toolpath

def isPrintable (c : Char) : Bool :=
  if c.toNat < 0x80 then 0x20 ≤ c.toNat && c.toNat ≤ 0x7E
  else Printable.ranges.any fun r => r.1 ≤ c.toNat && c.toNat ≤ r.2

end Toolpath
