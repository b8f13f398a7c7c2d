import Toolpath.Text.Case

/-!
# Suggestions

The name that a misspelt word may have meant. Names that contain the letters
of the word in order, whatever their case, come first, the nearest of them;
otherwise the nearest name is taken if it is near enough. Nearness is the
number of letters that have to be inserted, deleted or replaced.
-/

namespace Toolpath.Suggestion

/-- The next row of the table of distances: the distances between the
beginnings of `word` and a beginning of the other text that is one letter
longer. `above` is the row before, without its first entry `corner`. -/
def nextRow (c : Char) (corner left : Nat) : (word : List Char) → (above : List Nat) → List Nat
  | w :: word, a :: above =>
    let here := min (min (a + 1) (left + 1)) (if w = c then corner else corner + 1)
    here :: nextRow c a here word above
  | _, _ => []

def lastRow (word : List Char) (first : Nat) (row : List Nat) : List Char → List Nat
  | [] => row
  | c :: rest => lastRow word (first + 1) (nextRow c first (first + 1) word row) rest

def distance (word name : List Char) : Nat :=
  (lastRow word 0 ((List.range word.length).map (· + 1)) name).getLastD name.length

def chars (t : Text) : List Char := (Text.symbols t).map Symbol.char

def inOrder : (word text : List Char) → Bool
  | [], _ => true
  | _ :: _, [] => false
  | w :: word, c :: text => if w = c then inOrder word text else inOrder (w :: word) text

def contains (word name : Text) : Bool :=
  word.lower.length ≤ name.lower.length && inOrder (chars word.lower) (chars name.lower)

def nearest (word : Text) (best : Text) (limit : Nat) : List Text → Text
  | [] => best
  | name :: rest =>
    let d := distance (chars word) (chars name)
    if d < limit then nearest word name d rest else nearest word best limit rest

def find (word : Text) (names : List Text) : Text :=
  if word.isEmpty then []
  else
    match names.filter (contains word) with
    | [] => nearest word [] (word.length / 2 + 1) names
    | name :: rest => nearest word name (distance (chars word) (chars name)) rest

end Toolpath.Suggestion
