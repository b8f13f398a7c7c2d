import Toolpath.Text.Symbol

/-!
# Code pages

Encodings of one octet per character. The lower half is ASCII; a table gives
the characters of the upper half, with the replacement character where an
octet has no meaning.
-/

namespace Toolpath

inductive CodePage
  | windows1251
  | windows1252
  | koi8r
  | ibm866
deriving DecidableEq, Repr

namespace CodePage

def name : CodePage → Text
  | windows1251 => "windows-1251"
  | windows1252 => "windows-1252"
  | koi8r => "koi8-r"
  | ibm866 => "ibm866"

def upperHalf : CodePage → String
  | windows1251 =>
    "ЂЃ‚ѓ„…†‡€‰Љ‹ЊЌЋЏ" ++
    "ђ‘’“”•–—\ufffd™љ›њќћџ" ++
    "\u00a0ЎўЈ¤Ґ¦§Ё©Є«¬\u00ad®Ї" ++
    "°±Ііґµ¶·ё№є»јЅѕї" ++
    "АБВГДЕЖЗИЙКЛМНОП" ++
    "РСТУФХЦЧШЩЪЫЬЭЮЯ" ++
    "абвгдежзийклмноп" ++
    "рстуфхцчшщъыьэюя"
  | windows1252 =>
    "€\ufffd‚ƒ„…†‡ˆ‰Š‹Œ\ufffdŽ\ufffd" ++
    "\ufffd‘’“”•–—˜™š›œ\ufffdžŸ" ++
    "\u00a0¡¢£¤¥¦§¨©ª«¬\u00ad®¯" ++
    "°±²³´µ¶·¸¹º»¼½¾¿" ++
    "ÀÁÂÃÄÅÆÇÈÉÊËÌÍÎÏ" ++
    "ÐÑÒÓÔÕÖ×ØÙÚÛÜÝÞß" ++
    "àáâãäåæçèéêëìíîï" ++
    "ðñòóôõö÷øùúûüýþÿ"
  | koi8r =>
    "─│┌┐└┘├┤┬┴┼▀▄█▌▐" ++
    "░▒▓⌠■∙√≈≤≥\u00a0⌡°²·÷" ++
    "═║╒ё╓╔╕╖╗╘╙╚╛╜╝╞" ++
    "╟╠╡Ё╢╣╤╥╦╧╨╩╪╫╬©" ++
    "юабцдефгхийклмно" ++
    "пярстужвьызшэщчъ" ++
    "ЮАБЦДЕФГХИЙКЛМНО" ++
    "ПЯРСТУЖВЬЫЗШЭЩЧЪ"
  | ibm866 =>
    "АБВГДЕЖЗИЙКЛМНОП" ++
    "РСТУФХЦЧШЩЪЫЬЭЮЯ" ++
    "абвгдежзийклмноп" ++
    "░▒▓│┤╡╢╖╕╣║╗╝╜╛┐" ++
    "└┴┬├─┼╞╟╚╔╩╦╠═╬╧" ++
    "╨╤╥╙╘╒╓╫╪┘┌█▄▌▐▀" ++
    "рстуфхцчшщъыьэюя" ++
    "ЁёЄєЇїЎў°∙·√№¤■\u00a0"

def charOf (table : Array Char) (b : UInt8) : Char :=
  if b < 128 then Char.ofNat b.toNat else table.getD (b.toNat - 128) Symbol.replacement

def decode (p : CodePage) (t : Text) : Text :=
  let table := p.upperHalf.toList.toArray
  t.flatMap fun b => Text.ofChar (charOf table b)

end CodePage
end Toolpath
