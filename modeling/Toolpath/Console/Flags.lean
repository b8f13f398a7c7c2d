import Toolpath.Machine.Suggestion
import Toolpath.Text.Quoted

/-!
# Flags

Arguments that begin with a dash set flags: `--name value`, `--name=value`,
`-n value`, `-nvalue`, and letters of switches together behind one dash. All
other arguments are kept in order, and so is everything behind `--`.
-/

namespace Toolpath

structure Flag where
  name : Text
  letter : Option UInt8 := none
  isSwitch : Bool := false
deriving DecidableEq

inductive FlagFault
  | syntactic (argument : Text)
  | unknown (name : Text)
  /-- A letter of no flag, and the letters from it on. -/
  | unknownLetter (letters : Text)
  | needsValue (name : Text)
  | letterNeedsValue (letters : Text)
  | notTruth (flag : Flag) (value : Text)
deriving DecidableEq

/-- Flags that were set, the latest first, and the other arguments, the latest first. -/
structure Arguments where
  assigned : List (Text × Text) := []
  others : List Text := []
deriving DecidableEq

namespace Flag

def dash : UInt8 := 45

def equals : UInt8 := 61

def truths : List Text := ["1", "t", "T", "TRUE", "true", "True"]

def falsehoods : List Text := ["0", "f", "F", "FALSE", "false", "False"]

def title (f : Flag) : Text :=
  match f.letter with
  | some l => [dash, l] ++ ", --" ++ f.name
  | none => Text.ofString "--" ++ f.name

/-- A letter as messages show it. A letter outside ASCII shows as the first
octet of its encoding as a character. -/
def letterText (b : UInt8) : Text :=
  let shown := ((Text.ofChar (Char.ofNat b.toNat)).headD b).toNat
  Text.singleQuoted (Text.ofChar (Char.ofNat shown))

end Flag

namespace FlagFault

def letterIn (letters : Text) : Text :=
  Flag.letterText (letters.headD 0) ++ " in -" ++ letters

def message : FlagFault → Text
  | syntactic argument => Text.ofString "bad flag syntax: " ++ argument
  | unknown name => Text.ofString "unknown flag: --" ++ name
  | unknownLetter letters => Text.ofString "unknown shorthand flag: " ++ letterIn letters
  | needsValue name => Text.ofString "flag needs an argument: --" ++ name
  | letterNeedsValue letters => Text.ofString "flag needs an argument: " ++ letterIn letters
  | notTruth flag value =>
    Text.ofString "invalid argument " ++ Text.quoted value ++ " for " ++
      Text.quoted flag.title ++ " flag: strconv.ParseBool: parsing " ++
      Text.quoted value ++ ": invalid syntax"

end FlagFault

namespace Arguments

def value? (a : Arguments) (name : Text) : Option Text := a.assigned.lookup name

def value (a : Arguments) (name default : Text) : Text := (a.value? name).getD default

def isOn (a : Arguments) (name : Text) : Bool := a.value? name = some (Text.ofString "true")

def positional (a : Arguments) : List Text := a.others.reverse

def assign (a : Arguments) (f : Flag) (value : Text) : Except FlagFault Arguments :=
  if !f.isSwitch then .ok { a with assigned := (f.name, value) :: a.assigned }
  else if Flag.truths.contains value then
    .ok { a with assigned := (f.name, Text.ofString "true") :: a.assigned }
  else if Flag.falsehoods.contains value then
    .ok { a with assigned := (f.name, Text.ofString "false") :: a.assigned }
  else .error (.notTruth f value)

/-- A flag that waits for its value in the next argument, and what is wrong
when there is none. -/
abbrev Waiting := Option (Flag × FlagFault)

/-- What is left of a failed argument: the flags set before it stay set. -/
abbrev Outcome := Arguments × Except FlagFault Waiting

def settle (a : Arguments) (f : Flag) (value : Text) : Outcome :=
  match a.assign f value with
  | .ok a => (a, .ok none)
  | .error e => (a, .error e)

def readLong (flags : List Flag) (a : Arguments) (argument body : Text) : Outcome :=
  if body.head? = some Flag.dash || body.head? = some Flag.equals then
    (a, .error (.syntactic argument))
  else
    let (name, value) := match Text.cut? Flag.equals body with
      | some (name, value) => (name, some value)
      | none => (body, none)
    match flags.find? fun f => f.name = name, value with
    | none, _ => (a, .error (.unknown name))
    | some f, some v => settle a f v
    | some f, none =>
      if f.isSwitch then settle a f "true" else (a, .ok (some (f, .needsValue name)))

def readLetters (flags : List Flag) (a : Arguments) : Text → Outcome
  | [] => (a, .ok none)
  | l :: rest =>
    match flags.find? fun f => f.letter = some l with
    | none => (a, .error (.unknownLetter (l :: rest)))
    | some f =>
      if rest.head? = some Flag.equals && 1 < rest.length then settle a f rest.tail
      else if f.isSwitch then
        match settle a f "true" with
        | (a, .ok _) => readLetters flags a rest
        | failed => failed
      else if rest.isEmpty then (a, .ok (some (f, .letterNeedsValue [l])))
      else settle a f rest

def readOne (flags : List Flag) (a : Arguments) (argument : Text) : Outcome :=
  match argument with
  | [] => ({ a with others := [] :: a.others }, .ok none)
  | [b] => ({ a with others := [b] :: a.others }, .ok none)
  | b :: c :: rest =>
    if b ≠ Flag.dash then ({ a with others := argument :: a.others }, .ok none)
    else if c = Flag.dash then readLong flags a argument rest
    else readLetters flags a (c :: rest)

/-- Reads arguments up to the first fault; what was set before it stays set. -/
def readOnto (flags : List Flag) (a : Arguments) (waiting : Waiting) :
    List Text → Arguments × Option FlagFault
  | [] => (a, waiting.map Prod.snd)
  | argument :: rest =>
    match waiting with
    | some (f, _) =>
      match a.assign f argument with
      | .ok a => readOnto flags a none rest
      | .error e => (a, some e)
    | none =>
      if argument = [Flag.dash, Flag.dash] then
        ({ a with others := rest.reverse ++ a.others }, none)
      else
        match readOne flags a argument with
        | (a, .ok waiting) => readOnto flags a waiting rest
        | (a, .error e) => (a, some e)

def read (flags : List Flag) (arguments : List Text) : Arguments × Option FlagFault :=
  readOnto flags {} none arguments

def takesNext (flags : List Flag) (argument : Text) : Bool :=
  !argument.contains Flag.equals &&
    match argument with
    | b :: c :: rest =>
      b = Flag.dash &&
        if c = Flag.dash then !(flags.any fun f => f.name = rest && f.isSwitch)
        else rest.isEmpty && !(flags.any fun f => f.letter = some c && f.isSwitch)
    | _ => false

def looksLikeFlag (argument : Text) : Bool := argument.head? = some Flag.dash

/-- The arguments that are neither flags nor their values. A flag in front of
the last argument ends them. -/
def words (flags : List Flag) : List Text → List Text
  | [] => []
  | argument :: rest =>
    if argument = [Flag.dash, Flag.dash] then []
    else if takesNext flags argument then
      match rest with
      | _ :: next :: more => words flags (next :: more)
      | _ => []
    else if !argument.isEmpty && !looksLikeFlag argument then argument :: words flags rest
    else words flags rest

def withoutWord (flags : List Flag) (word : Text) : List Text → List Text
  | [] => []
  | argument :: rest =>
    if argument = [Flag.dash, Flag.dash] then argument :: rest
    else if takesNext flags argument then
      match rest with
      | v :: more => argument :: v :: withoutWord flags word more
      | [] => [argument]
    else if argument = word && !looksLikeFlag argument then rest
    else argument :: withoutWord flags word rest

end Arguments
end Toolpath
