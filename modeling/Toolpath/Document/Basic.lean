import Toolpath.Text.Basic

/-!
# Documents

A document is a tree of tables, lists, texts, numbers and truth values. It is
what a profile is written as, whatever the syntax. The keys of a table are
distinct.
-/

namespace Toolpath

inductive Document
  | null
  | flag (b : Bool)
  | number (x : Float)
  | text (t : Text)
  | list (items : List Document)
  | table (entries : List (Text × Document))

namespace Document

/-- The entries with one of them set; its place is kept, if it has one. -/
def setEntry (key : Text) (value : Document) :
    List (Text × Document) → List (Text × Document)
  | [] => [(key, value)]
  | e :: es => if e.1 = key then (key, value) :: es else e :: setEntry key value es

def get? (d : Document) (key : Text) : Option Document :=
  match d with
  | table entries => entries.lookup key
  | _ => none

def kind : Document → Text
  | null => "null"
  | flag _ => "boolean"
  | number _ => "number"
  | text _ => "string"
  | list _ => "array"
  | table _ => "object"

end Document
end Toolpath
