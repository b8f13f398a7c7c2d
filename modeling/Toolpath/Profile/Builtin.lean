import Toolpath.Profile.Basic

/-!
# Built-in profiles

Three controllers that need no file.
-/

namespace Toolpath

namespace Profile

def modalRegisters (formats : List (Text × Text)) : List (Text × RegisterFormat) :=
  formats.map fun e => (e.1, ⟨e.1 ++ braced e.2, true⟩)

def fanuc : Profile :=
  { name := "fanuc"
    machine := "Fanuc 0i-MF"
    cycleStyle := .code
    registers := modalRegisters
      [("X", "-####!###"), ("Y", "-####!###"), ("Z", "-####!###"), ("A", "-###!###"),
        ("B", "-###!###"), ("C", "-###!###"), ("I", "-####!###"), ("J", "-####!###"),
        ("K", "-####!###"), ("R", "-####!###"), ("F", "-####.0"), ("S", "#####"), ("T", "00")]
    comments := { maxLength := 64, transliterate := true }
    templates :=
      { header := ["%", "O0001 (\x7bname\x7d)", "(MACHINE \x7bmachine\x7d)",
          "(SOURCE \x7binputFile\x7d)", "(DATE \x7bdateTime\x7d)", "G21 G17 G40 G49 G80 G90"]
        footer := ["M30", "%"] } }

def haas : Profile :=
  { fanuc with
    name := "haas"
    machine := "Haas VF-2"
    arcRadius := true
    comments := { fanuc.comments with maxLength := 80 }
    templates := { fanuc.templates with footer := ["G28 G91 Z0.", "M30", "%"] } }

def siemens : Profile :=
  { name := "siemens"
    machine := "Sinumerik 840D sl"
    cancelMarker := "; PROCESSING CANCELLED BY USER"
    registers := modalRegisters
      [("X", "-0000!0##"), ("Y", "-0000!0##"), ("Z", "-0000!0##"), ("A", "-000!0##"),
        ("B", "-000!0##"), ("C", "-000!0##"), ("I", "-0000!0##"), ("J", "-0000!0##"),
        ("K", "-0000!0##"), ("R", "-0000!0##"), ("F", "-###.0"), ("S", "-#####"), ("T", "-#####")]
    comments := { kind := .semicolon, semicolonOpening := "; " }
    templates :=
      { header := ["; PROGRAM \x7bname\x7d", "; MACHINE \x7bmachine\x7d",
          "; SOURCE \x7binputFile\x7d", "; DATE \x7bdateTime\x7d", "G17 G71 G90 G94"] } }

def builtins : List Profile := [fanuc, haas, siemens]

def builtinNames : List Text := builtins.map Profile.name

end Profile

structure UnknownProfile where
  name : Text
deriving DecidableEq

def UnknownProfile.message (e : UnknownProfile) : Text :=
  "unknown controller profile " ++ Text.quoted e.name ++
    " (available: " ++ Text.join ", " Profile.builtinNames ++ ")"

def Profile.builtin (name : Text) : Except UnknownProfile Profile :=
  match builtins.find? fun p => p.name = name with
  | some p => .ok p
  | none => .error ⟨name⟩

end Toolpath
