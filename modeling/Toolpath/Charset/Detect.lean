import Toolpath.Charset.CodePage
import Toolpath.Charset.Utf16
import Toolpath.Charset.Utf8
import Toolpath.Text.Blank
import Toolpath.Text.Case
import Toolpath.Text.Quoted

/-!
# The encoding of a text

A byte order mark decides; else a text that is well formed UTF-8 is taken for
it; else it is in a code page: the Cyrillic one when high octets stand
together, as they do in words, and the Western one when they stand alone.
Only a sample at the beginning is looked at. An encoding can also be named.
-/

namespace Toolpath

inductive Encoding
  | utf8
  | utf16 (order : ByteOrder)
  | page (p : CodePage)
deriving DecidableEq, Repr

namespace Encoding

def name : Encoding → Text
  | utf8 => "utf-8"
  | utf16 .little => "utf-16le"
  | utf16 .big => "utf-16be"
  | page p => p.name

/-- The text as UTF-8. A byte order mark is kept as a character. -/
def decode : Encoding → Text → Text
  | utf8, t => Utf8.repair t
  | utf16 order, t => Utf16.decode order t
  | page p, t => p.decode t

def labels : List (Encoding × List String) :=
  [(utf8, ["unicode-1-1-utf-8", "unicode11utf8", "unicode20utf8", "utf-8", "utf8",
      "x-unicode20utf8"]),
    (utf16 .little, ["csunicode", "iso-10646-ucs-2", "ucs-2", "unicode", "unicodefeff", "utf-16",
      "utf-16le"]),
    (utf16 .big, ["unicodefffe", "utf-16be"]),
    (page .windows1251, ["cp1251", "windows-1251", "x-cp1251"]),
    (page .windows1252, ["ansi_x3.4-1968", "ascii", "cp1252", "cp819", "csisolatin1", "ibm819",
      "iso-8859-1", "iso-ir-100", "iso8859-1", "iso88591", "iso_8859-1", "iso_8859-1:1987", "l1",
      "latin1", "us-ascii", "windows-1252", "x-cp1252"]),
    (page .koi8r, ["cskoi8r", "koi", "koi8", "koi8-r", "koi8_r"]),
    (page .ibm866, ["866", "cp866", "csibm866", "ibm866"])]

def ofLabel? (label : Text) : Option Encoding :=
  let wanted := label.trim.lower
  (labels.find? fun p => p.2.any fun s => Text.ofString s = wanted).map Prod.fst

end Encoding

structure Guess where
  encoding : Encoding
  marked : Bool
deriving DecidableEq, Repr

namespace Charset

def sampleSize : Nat := 65536

def isContinuation (b : UInt8) : Bool := 0x80 ≤ b && b < 0xC0

/-- How many of the last octets, reversed, begin a character without completing it. -/
def openEnd (reversed : Text) : Nat :=
  let trail := (reversed.take 4).takeWhile isContinuation
  match reversed.drop trail.length with
  | lead :: _ =>
    if trail.length < 4 && !Text.isFullSymbol (lead :: trail.reverse) then trail.length + 1 else 0
  | [] => 0

def wholeSymbols (t : Text) : Text := (t.reverse.drop (openEnd t.reverse)).reverse

def isHigh (b : UInt8) : Bool := 0xC0 ≤ b

def clusters (high clustered : Nat) (afterHigh : Bool) : Text → Nat × Nat
  | [] => (high, clustered)
  | b :: t =>
    if isHigh b then
      let beforeHigh := match t with
        | c :: _ => isHigh c
        | [] => false
      clusters (high + 1) (if afterHigh || beforeHigh then clustered + 1 else clustered) true t
    else clusters high clustered false t

def looksCyrillic (t : Text) : Bool :=
  let (high, clustered) := clusters 0 0 false t
  0 < high && high ≤ clustered * 2

def detect (sample : Text) : Guess :=
  if Utf8.byteOrderMark.isPrefixOf sample then ⟨.utf8, true⟩
  else if [0xFF, 0xFE].isPrefixOf sample then ⟨.utf16 .little, true⟩
  else if [0xFE, 0xFF].isPrefixOf sample then ⟨.utf16 .big, true⟩
  else if Text.isUtf8 (wholeSymbols sample) then ⟨.utf8, false⟩
  else if looksCyrillic sample then ⟨.page .windows1251, false⟩
  else ⟨.page .windows1252, false⟩

/-- Text taken for UTF-8 is left as it is; a byte order mark is taken off. -/
def decodeAs (g : Guess) (t : Text) : Text :=
  match g with
  | ⟨.utf8, false⟩ => t
  | ⟨.utf8, true⟩ => Utf8.repair (t.drop 3)
  | ⟨.utf16 order, true⟩ => Utf16.decode order (t.drop 2)
  | ⟨e, _⟩ => e.decode t

def read (data : Text) : Text × Encoding :=
  let g := detect (data.take sampleSize)
  (decodeAs g data, g.encoding)

structure UnknownEncoding where
  label : Text
deriving DecidableEq

def UnknownEncoding.message (e : UnknownEncoding) : Text :=
  "unknown encoding " ++ Text.quoted e.label

/-- Reads a file in the encoding with this label. Without a label, or with
`auto`, the encoding is detected. -/
def readAs (label data : Text) : Except UnknownEncoding (Text × Encoding) :=
  if label = [] || label = "auto" then .ok (read data)
  else
    match Encoding.ofLabel? label with
    | some e => .ok (e.decode data, e)
    | none => .error ⟨label⟩

end Charset
end Toolpath
