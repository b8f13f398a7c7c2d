import Toolpath.Charset.Detect
import Toolpath.Profile.Parse
import Toolpath.Statement.Parse
import Toolpath.Stream.Reader

/-!
# Failures

Why a job could not be done. A failure may be wrapped in the places it came
through; its `root` is what went wrong, and decides how it is reported.
-/

namespace Toolpath

structure Complaint where
  topic : Text
  message : Text
  details : Text := []
  hint : Text := []
deriving DecidableEq

def Complaint.text (c : Complaint) : Text :=
  Text.join [Text.newline] (c.message :: [c.details, c.hint].filter (!·.isEmpty))

structure UnknownCommand where
  major : Text
  line : Int64
  suggestion : Text
deriving DecidableEq

namespace UnknownCommand

def didYouMean (suggestion : Text) : Text :=
  if suggestion.isEmpty then []
  else Text.ofString " (did you mean " ++ Text.quoted suggestion.upper ++ "?)"

def message (e : UnknownCommand) : Text :=
  "line " ++ Text.ofInt e.line.toInt ++ ": unknown command " ++
    Text.quoted e.major.upper ++ didYouMean e.suggestion

end UnknownCommand

inductive Failure
  | complaint (c : Complaint)
  | parse (e : ParseError)
  | unknownCommand (e : UnknownCommand)
  | profile (e : ProfileError)
  | sink (e : SinkError)
  | stream (e : StreamError)
  | streamWrite (e : StreamWriteError)
  /-- A source was told to stop. -/
  | readCancelled
  /-- A run was told to stop. -/
  | runCancelled (cause : Text)
  | unknownProfile (e : UnknownProfile)
  | unknownEncoding (e : Charset.UnknownEncoding)
  | unreadable (line : Int64) (reason : Text)
  | other (reason : Text)
  | within (place : Text) (f : Failure)
deriving DecidableEq

namespace Failure

def stopped : Text := "context canceled"

def message : Failure → Text
  | complaint c => c.text
  | parse e => e.message
  | unknownCommand e => e.message
  | profile e => e.message
  | sink e => e.message
  | stream e => e.message
  | streamWrite e => e.message
  | readCancelled => Text.ofString "apt: parsing cancelled: " ++ stopped
  | runCancelled cause => Text.ofString "post: processing cancelled: " ++ cause
  | unknownProfile e => e.message
  | unknownEncoding e => e.message
  | unreadable line reason =>
    Text.ofString "read line " ++ Text.ofInt line.toInt ++ ": " ++ reason
  | other reason => reason
  | within place f => place ++ ": " ++ f.message

def root : Failure → Failure
  | within _ f => f.root
  | f => f

end Failure

inductive Stop
  | failure (f : Failure)
  | violation (v : Violation)
deriving DecidableEq

end Toolpath
