import Toolpath.Console.Dump
import Toolpath.Console.Flags
import Toolpath.Console.Host
import Toolpath.Console.Jobs
import Toolpath.Console.Report
import Toolpath.Machine.Run

/-!
# The commands of the console

`App.main` finds the command that the arguments name, reads its flags, and
does its work on a host. It answers the failure to report, if there is one.
-/

namespace Toolpath

structure Session where
  arguments : List Text
  interactive : Bool := false
  terminalOutput : Bool := false
  cancelled : Bool := false
  debug : Bool := false
  /-- Whether what is printed, and what is told, may be coloured. -/
  printColor : Bool := false
  tellColor : Bool := false
  now : Moment

inductive ConsoleCommand
  | root
  | translate
  | check
  | dump
  | watch
  | controllers
  | help
  | completion
deriving DecidableEq, Repr

namespace ConsoleCommand

def name : ConsoleCommand → Text
  | root => "aptpost"
  | translate => "translate"
  | check => "check"
  | dump => "dump"
  | watch => "watch"
  | controllers => "controllers"
  | help => "help"
  | completion => "completion"

def below : List ConsoleCommand := [translate, check, dump, watch, controllers, help, completion]

def globalFlags : List Flag :=
  [{ name := "controller", letter := some 99 }, { name := "config" }, { name := "encoding" },
    { name := "debug", isSwitch := true }, { name := "no-color", isSwitch := true }]

def outputFlag : Flag := { name := "output", letter := some 111 }

def translateFlags : List Flag :=
  [outputFlag, { name := "strict", isSwitch := true },
    { name := "verbose", letter := some 118, isSwitch := true }]

def ownFlags : ConsoleCommand → List Flag
  | translate => translateFlags
  | watch => translateFlags
  | dump => [{ name := "format" }, outputFlag]
  | _ => []

def helpFlag : Flag := { name := "help", letter := some 104, isSwitch := true }

def flags (c : ConsoleCommand) : List Flag := globalFlags ++ c.ownFlags ++ [helpFlag]

def mayMean (word : Text) (c : ConsoleCommand) : Bool :=
  let octets (t : Text) : List Char := t.lower.map fun b => Char.ofNat b.toNat
  c ≠ .help &&
    (Suggestion.distance (octets word) (octets c.name) ≤ 2 ||
      (c.name.dropFront? word.lower).isSome)

def suggestions (word : Text) : Text :=
  match below.filter (mayMean word) with
  | [] => []
  | cs => Text.ofString "\n\nDid you mean this?\n" ++
      cs.flatMap fun c => Text.ofString "\t" ++ c.name ++ Text.ofString "\n"

def unknownIn (path word : Text) : Text :=
  "unknown command " ++ Text.quoted word ++ " for " ++ Text.quoted path

def find (arguments : List Text) : Except Failure (ConsoleCommand × List Text) :=
  match Arguments.words globalFlags arguments with
  | [] => .ok (.root, arguments)
  | word :: _ =>
    match below.find? fun c => c.name = word with
    | some c => .ok (c, Arguments.withoutWord globalFlags word arguments)
    | none => .error (.other (unknownIn root.name word ++ suggestions word))

def accepts (c : ConsoleCommand) (given : List Text) : Except Failure Unit :=
  match c, given with
  | .controllers, word :: _ =>
    .error (.other (unknownIn (Text.join " " [root.name, c.name]) word))
  | .translate, _ => .ok ()
  | .controllers, _ => .ok ()
  | _, _ =>
    if given.length = 1 then .ok ()
    else .error (.other (Text.ofString "accepts 1 arg(s), received " ++ Text.ofNat given.length))

end ConsoleCommand

namespace App

variable {m : Type → Type} [Monad m] [Host m]

abbrev Work (m : Type → Type) := ExceptT Failure m

structure Options where
  session : Session
  flags : Arguments

namespace Options

def encoding (o : Options) : Text := o.flags.value "encoding" "auto"

def output (o : Options) : Text := o.flags.value "output" []

def verbose (o : Options) : Bool := o.flags.isOn "verbose"

def noColor (o : Options) : Bool := o.flags.isOn "no-color"

def threshold (o : Options) : Level :=
  if o.flags.isOn "debug" || o.session.debug then .debug
  else if o.verbose then .info
  else .warning

def printColor (o : Options) : Bool := o.session.printColor && !o.noColor

def tellColor (o : Options) : Bool := o.session.tellColor && !o.noColor

end Options

def print (t : Text) : Work m Unit := ExceptT.lift (Host.print t)

def tell (t : Text) : Work m Unit := ExceptT.lift (Host.tell t)

def shown (o : Options) (notes : List Note) : Text :=
  (notes.filter fun n => o.threshold.rank ≤ n.level.rank).flatMap fun n =>
    n.render ++ [Text.newline]

def tellNotes (o : Options) (notes : List Note) : Work m Unit := tell (shown o notes)

def usage (message : Text) (hint : Text := []) : Failure :=
  .complaint { topic := "usage", message, hint }

/-! ## Inputs -/

def cannotOpen (path reason : Text) : Text :=
  "open " ++ path ++ ": " ++ reason

def cannotRead (path : Text) : Text := "read " ++ path ++ ": is a directory"

def profile (o : Options) : Work m Profile := do
  let path := o.flags.value "config" []
  let unusable (reason : Text) : Work m Profile :=
    throw (.profile { source := path, cause := some (.other reason) })
  if path.isEmpty then
    match Profile.builtin (o.flags.value "controller" "fanuc") with
    | .ok p => return p
    | .error e => throw (.unknownProfile e)
  else
    match ← ExceptT.lift (Host.openFile (m := m) path) with
    | .error reason => unusable (cannotOpen path reason)
    | .ok .directory => unusable (cannotRead path)
    | .ok (.contents data) =>
      match Profile.parse data (Path.documentFormat path) path with
      | .ok p => return p
      | .error e => throw (.profile e)

structure Input where
  source : Source
  encoding : Option Encoding

def openInput (path : Text) : Work m Opened := do
  if path = Path.standardInput then
    return .contents (← ExceptT.lift (Host.standardInput (m := m)))
  match ← ExceptT.lift (Host.openFile (m := m) path) with
  | .ok found => return found
  | .error reason =>
    throw (.other (Text.ofString "error opening file " ++ path ++ ": " ++
      cannotOpen path reason))

def streamOf (path : Text) : Opened → Except Failure Source
  | .directory =>
    .error (.within path (.other (Text.ofString "invalid command stream: read preamble: " ++
      cannotRead path)))
  | .contents data =>
    match StreamReader.ofText data with
    | .ok r => .ok (.stream r)
    | .error e => .error (.within path (.stream e))

def programOf (label path : Text) (found : Opened) : Except Failure (Source × Encoding) :=
  let data := match found with
    | .contents data => data
    | .directory => []
  match Charset.readAs label data, found with
  | .error e, _ => .error (.unknownEncoding e)
  | .ok (_, e), .directory => .ok (.program (Lexer.ofBrokenText [] (cannotRead path)), e)
  | .ok (text, e), .contents _ => .ok (.program (Lexer.ofText text), e)

def input (o : Options) (path : Text) : Work m Input := do
  let found ← openInput path
  if Path.isStream path then
    return { source := ← liftExcept (streamOf path found), encoding := none }
  else
    let (source, encoding) ← liftExcept (programOf o.encoding path found)
    tellNotes o [⟨.debug, "input opened",
      [("input", .text path), ("encoding", .text encoding.name)]⟩]
    return { source, encoding := some encoding }
where
  liftExcept {α : Type} (e : Except Failure α) : Work m α := ExceptT.mk (pure e)

def create (path : Text) : Work m Unit := do
  match ← ExceptT.lift (Host.createFile (m := m) path) with
  | .ok _ => pure ()
  | .error reason =>
    throw (.complaint
      { topic := "output", message := "cannot create " ++ path
        details := cannotOpen path reason })

def deliver (path contents : Text) : Work m Unit :=
  if path.isEmpty then print contents else ExceptT.lift (Host.fillFile path contents)

/-! ## Writing programs -/

structure Done where
  job : Job
  encoding : Option Encoding
  stats : Stats
  blocks : Nat
  lines : Nat
  bytes : Nat
  digest : Text

def Done.report (d : Done) (color : Bool) : Text :=
  let s := d.stats
  let line (parts : List Text) : Text := parts.flatten ++ [Text.newline]
  line [Color.green.paint color "ok", " ", Path.display d.job.input, " -> ",
      if d.job.output.isEmpty then "stdout" else d.job.output] ++
    line ["   ", Text.ofNat s.commands, " commands, ", Text.ofNat s.motions, " motions, ",
      Text.ofNat s.toolChanges, " tool changes, ", Text.ofNat s.cycles, " cycles, ",
      Text.ofNat s.unknown, " unknown"] ++
    line ["   ", Text.ofNat d.blocks, " blocks, ", Text.ofNat d.lines, " lines, ",
      Text.ofNat d.bytes, " bytes, input ",
      (d.encoding.map Encoding.name).getD "binary stream"] ++
    line ["   ", Color.gray.paint color "blake2b-256", " ", Text.hex d.digest]

def stopFailure : Stop → Failure
  | .failure f => f
  | .violation v => .other v.message

def machineFor (o : Options) (p : Profile) (job : Job) : Except Violation Machine := do
  let name := Path.display job.input
  let m ← Machine.start p
    { name := Path.programName job.input, inputFile := name, time := o.session.now }
    { onward := some { ending := p.lineEnding } }
  return { m with
    strict := o.flags.isOn "strict"
    subject := [("input", .text name)] }

/-- Does a job. A job that is told to stop still writes its header. -/
def translateOne (o : Options) (p : Profile) (stop : Bool) (job : Job) : Work m Done := do
  let i ← input o job.input
  if !job.output.isEmpty then create job.output
  match machineFor o p job with
  | .error v => throw (.other v.message)
  | .ok machine =>
    let t := machine.run i.source (if stop then .atOnce else .never)
    tellNotes o t.machine.log.reverse
    let sink := ((t.machine.outlet.onward.map fun s => s.flush.2).getD {})
    deliver job.output sink.tape.contents
    match t.stop with
    | some e => throw (.within (Path.display job.input) (stopFailure e))
    | none =>
      return { job, encoding := i.encoding, stats := t.machine.stats
               blocks := t.machine.writer.blocks, lines := sink.lines, bytes := sink.bytes
               digest := sink.digest }

/-- Does jobs one after the other. After a failure the later ones are told to
stop; the first failure is answered with what was done. -/
def translateAll (o : Options) (p : Profile) (failure : Option Failure) (done : List Done) :
    List Job → m (Option Failure × List Done)
  | [] => pure (failure, done)
  | job :: rest => do
    match ← (translateOne o p (o.session.cancelled || failure.isSome) job).run with
    | .ok d => translateAll o p failure (done ++ [d]) rest
    | .error e => translateAll o p (failure <|> some e) done rest

/-- Makes the output directory if there has to be one; the answer is why it
could not be made. -/
def prepare (inputs : List Text) (output : Text) : m (Option Text) := do
  if Job.needsDirectory inputs output then
    match ← Host.makeDirectories output with
    | .ok _ => return none
    | .error reason => return some reason
  else return none

def translate (o : Options) (given : List Text) : Work m Unit := do
  let inputs := if given.isEmpty then [Path.standardInput] else given
  if given.isEmpty && o.session.interactive then
    throw (usage "no input files" "Pass an APT file, or \"-\" to read stdin")
  let p ← profile o
  match Job.plan inputs o.output (← ExceptT.lift (prepare (m := m) inputs o.output)) with
  | .error c => throw (.complaint c)
  | .ok jobs =>
    let (failure, done) ← ExceptT.lift (translateAll o p none [] jobs)
    if o.verbose then tell (done.flatMap (Done.report · o.tellColor))
    match failure with
    | some f => throw f
    | none => pure ()

/-! ## The other commands -/

def check (o : Options) (path : Text) : Work m Unit := do
  let i ← input o path
  let name := Path.display path
  let (failure, notes, report) := Check.source .standard i.source o.session.cancelled
  tellNotes o notes.reverse
  match failure with
  | some f => throw (.within name f)
  | none =>
    print (report.report name o.printColor)
    if 0 < report.errors then
      throw (.complaint
        { topic := "check"
          message := name ++ ": " ++ counted report.errors "problem" "problems" })

inductive DumpFormat
  | text
  | objects
  | stream
deriving DecidableEq, Repr

def dumpFormat? (t : Text) : Option DumpFormat :=
  if t = "text" then some .text
  else if t = "json" then some .objects
  else if t = "cbor" then some .stream
  else none

def dumpStream (o : Options) (output : Text) (source : Source) : Work m Unit := do
  let e := source.encode {} o.session.cancelled
  tellNotes o e.notes.reverse
  deliver output e.writer.tape.contents
  match e.failure with
  | some f => throw f
  | none =>
    tellNotes o [⟨.info, "stream written",
      [("commands", .integer e.writer.count), ("blake2b-256", .text (Text.hex e.digest))]⟩]

def dumpLines (o : Options) (output : Text) (line : Command → Except Failure Text)
    (source : Source) : Work m Unit := do
  let (failure, notes, lines) := Dump.lines line source o.session.cancelled
  tellNotes o notes.reverse
  deliver output lines.reverse.flatten
  match failure with
  | some f => throw f
  | none => pure ()

def dump (o : Options) (path : Text) : Work m Unit := do
  let wanted := o.flags.value "format" "text"
  match dumpFormat? wanted with
  | none =>
    throw (usage (Text.ofString "unsupported format " ++ Text.quoted wanted)
      "Use text, json or cbor")
  | some format =>
    let output := if o.output = Path.standardInput then [] else o.output
    if !output.isEmpty then create output
    else if format = .stream && o.session.terminalOutput then
      throw (usage "refusing to write a binary stream to the terminal"
        (Text.ofString "Redirect stdout or pass -o FILE" ++ Path.streamExtension))
    let i ← input o path
    match format with
    | .stream => dumpStream o output i.source
    | .text => dumpLines o output (fun c => .ok (Dump.textLine c)) i.source
    | .objects => dumpLines o output Dump.objectLine i.source

def table (rows : List (List Text)) : Text :=
  let width (i : Nat) : Nat := (rows.map fun r => Text.symbolCount (r.getD i [])).foldl max 0
  let cell (n i : Nat) (t : Text) : Text :=
    if i + 1 = n then t else t ++ List.replicate (width i + 2 - Text.symbolCount t) Text.space
  rows.flatMap fun r => (r.mapIdx fun i t => cell r.length i t).flatten ++ [Text.newline]

def controllers : Work m Unit :=
  let cells (p : Profile) : List Text :=
    [p.name, p.machine, p.version, if p.cycleStyle = .code then "gcode" else "call"]
  print (table (["NAME", "MACHINE", "VERSION", "CYCLES"] :: Profile.builtins.map cells))

structure Watch where
  options : Options
  profile : Profile
  job : Job

def Watch.translate (w : Watch) : m Unit := do
  match ← (translateOne w.options w.profile w.options.session.cancelled w.job).run with
  | .ok d => if w.options.verbose then Host.tell (d.report w.options.tellColor) else pure ()
  | .error f => Host.tell (f.report w.options.tellColor)

def watch (o : Options) (path : Text) : Work m Watch := do
  if o.output.isEmpty || o.output = Path.standardInput then
    throw (usage "watch needs an output file"
      (Text.ofString "Pass -o FILE" ++ Path.outputExtension))
  if path = Path.standardInput then throw (usage "cannot watch stdin")
  let p ← profile o
  match ← ExceptT.lift (Host.absent? (m := m) (Path.directory (Path.clean path))) with
  | some reason =>
    throw (.within (Text.ofString "watch " ++ path) (.other reason))
  | none =>
    let w : Watch := ⟨o, p, ⟨path, o.output⟩⟩
    ExceptT.lift w.translate
    tellNotes o [⟨.info, "watching", [("input", .text path), ("output", .text o.output)]⟩]
    return w

def helpText : Text :=
  Text.ofString "Translate APT/CL toolpaths into G-code\n\nUsage:\n  aptpost [command]\n\n" ++
    "Available Commands:\n" ++
    ([ConsoleCommand.check, .controllers, .dump, .translate, .watch].flatMap fun c =>
      Text.ofString "  " ++ c.name ++ Text.ofString "\n")

/-! ## Main -/

structure Ending where
  failure : Option Failure := none
  noColor : Bool := false
  /-- What is to be done again when its input changes. -/
  watched : Option Watch := none

def run (c : ConsoleCommand) (o : Options) : Work m (Option Watch) := do
  let first := o.flags.positional.headD []
  match c with
  | .watch => return some (← watch o first)
  | .translate => translate o o.flags.positional
  | .check => check o first
  | .dump => dump o first
  | .controllers => controllers
  | _ => print helpText
  return none

def isHelp (c : ConsoleCommand) (flags : Arguments) : Bool :=
  flags.isOn "help" || c = .root || c = .help || c = .completion

def start (c : ConsoleCommand) (o : Options) : Work m (Option Watch) := do
  if isHelp c o.flags then
    print helpText
    return none
  match c.accepts o.flags.positional with
  | .ok _ => run c o
  | .error f => throw f

def main (s : Session) : m Ending := do
  match ConsoleCommand.find s.arguments with
  | .error f => return { failure := some f }
  | .ok (c, arguments) =>
    let (flags, fault) := Arguments.read c.flags arguments
    let o : Options := ⟨s, flags⟩
    match fault with
    | some e => return { failure := some (.other e.message), noColor := o.noColor }
    | none =>
      match ← (start c o).run with
      | .ok watched => return { noColor := o.noColor, watched }
      | .error f => return { failure := some f, noColor := o.noColor }

end App
end Toolpath
