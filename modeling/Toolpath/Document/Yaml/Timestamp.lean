import Toolpath.Text.Basic

/-!
# Timestamps of YAML

A date, or a date and a time, with a fraction of a second and an offset from
universal time. The fields may lack leading zeros; the canonical text has
them.
-/

namespace Toolpath.Yaml

structure Timestamp where
  year : Nat
  month : Nat
  day : Nat
  hour : Nat := 0
  minute : Nat := 0
  second : Nat := 0
  fraction : Text := []
  /-- The offset in minutes, and whether it is to the west. -/
  offset : Nat := 0
  west : Bool := false

namespace Timestamp

def isLeap (year : Nat) : Bool := year % 4 = 0 && (year % 100 ≠ 0 || year % 400 = 0)

def daysIn (year month : Nat) : Nat :=
  if month = 2 then if isLeap year then 29 else 28
  else if month = 4 || month = 6 || month = 9 || month = 11 then 30
  else 31

def shortNumber? (t : Text) : Option (Nat × Text) :=
  match t with
  | a :: b :: t =>
    if !Text.isDigit a then none
    else if Text.isDigit b then some (Text.natValue [a, b], t)
    else some (Text.natValue [a], b :: t)
  | [a] => if Text.isDigit a then some (Text.natValue [a], []) else none
  | [] => none

def twoDigits? (t : Text) : Option (Nat × Text) :=
  match t with
  | a :: b :: t =>
    if Text.isDigit a && Text.isDigit b then some (Text.natValue [a, b], t) else none
  | _ => none

def expect? (b : UInt8) : Text → Option Text
  | a :: t => if a = b then some t else none
  | [] => none

def date? (t : Text) : Option (Timestamp × Text) := do
  let digits := t.take 4
  if digits.length < 4 || !digits.all Text.isDigit then none
  else
    let t ← expect? 45 (t.drop 4)
    let (month, t) ← shortNumber? t
    let t ← expect? 45 t
    let (day, t) ← shortNumber? t
    let year := Text.natValue digits
    if 1 ≤ month && month ≤ 12 && 1 ≤ day && day ≤ daysIn year month then
      some ({ year, month, day }, t)
    else none

def takeFraction (t : Text) : Text × Text :=
  match t with
  | point :: d :: rest =>
    if (point = 46 || point = 44) && Text.isDigit d then
      let digits := (d :: rest).takeWhile Text.isDigit
      (digits.take 9, (d :: rest).drop digits.length)
    else ([], t)
  | _ => ([], t)

def time? (s : Timestamp) (t : Text) : Option (Timestamp × Text) := do
  let (hour, t) ← shortNumber? t
  let t ← expect? 58 t
  let (minute, t) ← shortNumber? t
  let t ← expect? 58 t
  let (second, t) ← shortNumber? t
  if hour < 24 && minute < 60 && second < 60 then
    let (fraction, t) := takeFraction t
    some ({ s with hour, minute, second, fraction }, t)
  else none

def zone? (s : Timestamp) (t : Text) : Option Timestamp := do
  match t with
  | [90] => some s
  | sign :: t =>
    if sign ≠ 43 && sign ≠ 45 then none
    else
      let (hours, t) ← twoDigits? t
      let t ← expect? 58 t
      let (minutes, t) ← twoDigits? t
      if t = [] && hours ≤ 24 && minutes < 60 then
        some { s with offset := hours * 60 + minutes, west := sign = 45 }
      else none
  | [] => none

def ofText? (t : Text) : Option Timestamp := do
  let (s, t) ← date? t
  match t with
  | [] => some s
  | b :: t =>
    let (s, t) ← time? s t
    if b = 84 || b = 116 then zone? s t
    else if b = 32 && t = [] then some s
    else none

def padded (width n : Nat) : Text :=
  let t := Text.ofNat n
  List.replicate (width - t.length) Text.zero ++ t

def render (s : Timestamp) : Text :=
  let fraction := s.fraction.dropWhileBack (· = Text.zero)
  padded 4 s.year ++ "-" ++ padded 2 s.month ++ "-" ++ padded 2 s.day ++
    "T" ++ padded 2 s.hour ++ ":" ++ padded 2 s.minute ++
    ":" ++ padded 2 s.second ++
    (if fraction = [] then [] else Text.point :: fraction) ++
    (if s.offset = 0 then Text.ofString "Z"
      else Text.ofString (if s.west then "-" else "+") ++ padded 2 (s.offset / 60) ++
        ":" ++ padded 2 (s.offset % 60))

end Timestamp
end Toolpath.Yaml
