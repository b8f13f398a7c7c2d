import Toolpath.Text.Symbol

/-!
# Cyrillic in Latin letters

Controllers that only take ASCII comments get Russian letters spelled out in
Latin ones. Hard and soft signs vanish; everything else stays.
-/

namespace Toolpath.Transliteration

def table : List (Char × String) := [
  ('А', "A"), ('а', "a"), ('Б', "B"), ('б', "b"), ('В', "V"), ('в', "v"),
  ('Г', "G"), ('г', "g"), ('Д', "D"), ('д', "d"), ('Е', "E"), ('е', "e"),
  ('Ё', "Yo"), ('ё', "yo"), ('Ж', "Zh"), ('ж', "zh"), ('З', "Z"), ('з', "z"),
  ('И', "I"), ('и', "i"), ('Й', "Y"), ('й', "y"), ('К', "K"), ('к', "k"),
  ('Л', "L"), ('л', "l"), ('М', "M"), ('м', "m"), ('Н', "N"), ('н', "n"),
  ('О', "O"), ('о', "o"), ('П', "P"), ('п', "p"), ('Р', "R"), ('р', "r"),
  ('С', "S"), ('с', "s"), ('Т', "T"), ('т', "t"), ('У', "U"), ('у', "u"),
  ('Ф', "F"), ('ф', "f"), ('Х', "Kh"), ('х', "kh"), ('Ц', "Ts"), ('ц', "ts"),
  ('Ч', "Ch"), ('ч', "ch"), ('Ш', "Sh"), ('ш', "sh"), ('Щ', "Sch"), ('щ', "sch"),
  ('Ъ', ""), ('ъ', ""), ('Ы', "Y"), ('ы', "y"), ('Ь', ""), ('ь', ""),
  ('Э', "E"), ('э', "e"), ('Ю', "Yu"), ('ю', "yu"), ('Я', "Ya"), ('я', "ya")]

def symbol : Symbol → Text
  | .scalar c =>
    match table.lookup c with
    | some latin => latin
    | none => Text.ofChar c
  | .stray b => [b]

def latin (t : Text) : Text := (Text.symbols t).flatMap symbol

end Toolpath.Transliteration
