import Toolpath.Check
import Toolpath.Console.Color

/-!
# Reports to the operator

How failures and the findings of a check are shown on a terminal.
-/

namespace Toolpath

namespace Complaint

def report (c : Complaint) (color : Bool) : Text :=
  Color.red.paint color "Error: " ++ c.message ++ Text.ofString "\n" ++
    (if c.details.isEmpty then [] else Text.ofString "\n" ++ c.details ++ Text.ofString "\n") ++
    (if c.hint.isEmpty then []
      else Color.yellow.paint color "Hint: " ++ c.hint ++ Text.ofString "\n")

end Complaint

def Problem.report (p : Problem) (color : Bool) : Text :=
  let path := if p.path.isEmpty then Text.ofString "/" else p.path
  Text.ofString "  " ++ Color.cyan.paint color (path ++ ":") ++ " " ++
    p.message ++ "\n"

def ProfileError.report (e : ProfileError) (color : Bool) : Text :=
  Color.red.paint color "Error: " ++ e.headline ++ "\n" ++
    e.problems.flatMap (Problem.report · color) ++
    if e.cause = some .invalid then
      Color.yellow.paint color "Hint: " ++
        "Start from a built-in profile; `aptpost controllers` lists them\n"
    else []

def belowHeadline (t : Text) : Text := ((Text.cut? Text.newline t).map Prod.snd).getD []

def Failure.report (f : Failure) (color : Bool) : Text :=
  match f.root with
  | .complaint c => c.report color
  | .parse e => Complaint.report ⟨"parse", e.reason, belowHeadline e.message, []⟩ color
  | .profile e => e.report color
  | .unknownCommand _ =>
    Complaint.report ⟨"translate", f.message, [],
      "Run without --strict to skip unknown commands, or `aptpost check` to list them"⟩ color
  | .unknownProfile _ =>
    Complaint.report ⟨"usage", f.message, [],
      "`aptpost controllers` lists the built-in profiles; --config loads one from a file"⟩ color
  | .runCancelled _ =>
    Color.yellow.paint color "Cancelled: " ++ f.message ++ "\n"
  | _ => Color.red.paint color "Error: " ++ f.message ++ "\n"

def counted (n : Nat) (one many : Text) : Text :=
  Text.ofNat n ++ " " ++ if n = 1 then one else many

def Issue.report (i : Issue) (name : Text) (color : Bool) : Text :=
  let mark := if i.warning then Color.yellow else .red
  let major := if i.major.upper.isEmpty then Text.ofString "-" else i.major.upper
  name ++ ":" ++ Text.ofInt i.line.toInt ++ ": " ++
    mark.paint color (i.level ++ ":") ++ " " ++
    Color.cyan.paint color major ++ " " ++ i.message ++ "\n"

def Report.report (r : Report) (name : Text) (color : Bool) : Text :=
  let verdict :=
    if 0 < r.errors then Color.red.paint color "failed" else Color.green.paint color "ok"
  r.issues.flatMap (Issue.report · name color) ++ verdict ++ " " ++ name ++
    ": " ++ Text.ofNat r.commands ++ " commands, " ++
    counted r.errors "error" "errors" ++ ", " ++
    counted r.warnings "warning" "warnings" ++ "\n"

end Toolpath
