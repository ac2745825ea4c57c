import MarkupLint.CommandLine.Argument
import MarkupLint.Files.PathName
import MarkupLint.Log
import MarkupLint.Number.Decimal
import MarkupLint.Number.Reading
import MarkupLint.Report.Console

/-!
# Commands

Arguments ask for the version, for help, or for files to be linted.  The first request for the
version or for help counts before any value is looked at; of two wrong values, the one whose option
is given first is refused.
-/

namespace MarkupLint
namespace CommandLine

/-- What is asked for about linting. -/
structure LintRequest where
  files : List String
  config? : Option Files.PathName
  level : LogLevel
  timeout? : Option Binary64
  console : Report.Console
deriving DecidableEq, Repr, Inhabited

/-- What the arguments ask for. -/
inductive Command where
  | showVersion
  | showHelp
  | lint (request : LintRequest)
deriving DecidableEq, Repr, Inhabited

/-- Why arguments are refused. -/
inductive Refusal where
  | misuse (cause : Misuse)
  | unknownFormat (value : String)
  | noNumber (value : String)
  /-- A number of seconds that is not positive. -/
  | outOfRange (number : Binary64)
deriving DecidableEq, Repr, Inhabited

namespace Refusal

/-- The wording of a refusal. -/
def message : Refusal → String
  | .misuse cause => cause.message
  | .unknownFormat value =>
    s!"Invalid value for '--format': {Text.quoted value} is not one of 'text', 'json'."
  | .noNumber value =>
    s!"Invalid value for '--timeout': {Text.quoted value} is not a valid float range."
  | .outOfRange number =>
    s!"Invalid value for '--timeout': {number.text} is not in the range x>0."

/-- Whether the usage is shown with the refusal. -/
def showsUsage : Refusal → Bool
  | .misuse (.missingValue _) => false
  | .misuse (.unwantedValue _) => false
  | _ => true

end Refusal

/-- Whether a number is no number of seconds: it is zero or negative. -/
def isBelowRange : Binary64 → Bool
  | .nan => false
  | .infinite isNegative => isNegative
  | .finite isNegative significand _ => isNegative || significand == 0

/-- The format that is asked for by a word. -/
def readFormat (word : String) : Except Refusal Report.Format :=
  match Report.Format.ofWord? word with
  | some format => .ok format
  | none => .error (.unknownFormat word)

/-- The number of seconds that is asked for by a text. -/
def readTimeout (text : String) : Except Refusal Binary64 :=
  match Binary64.read? text.toList with
  | none => .error (.noNumber text)
  | some number => if isBelowRange number then .error (.outOfRange number) else .ok number

/-- The lowest level of the log records that are shown. -/
def levelOf (arguments : Arguments) : LogLevel :=
  if arguments.isOn .debug then .debug
  else if arguments.isOn .verbose then .info
  else .warning

/-- The topics in the order in which something is first given for them. -/
def topicsOf (settings : List Setting) : List Topic := (settings.map (·.topic)).eraseDups

/-- Refuse a wrong value for a topic. -/
def checkTopic (arguments : Arguments) (topic : Topic) : Except Refusal Unit :=
  match topic, arguments.value? topic with
  | .format, some word => (readFormat word).map fun _ => ()
  | .timeout, some text => (readTimeout text).map fun _ => ()
  | _, _ => .ok ()

/-- The request for version or help that comes first, if there is one. -/
def eager? (arguments : Arguments) : Option Command :=
  (topicsOf arguments.settings).findSome? fun
    | .version => some .showVersion
    | .help => some .showHelp
    | _ => none

namespace LintRequest

/-- What arguments ask for about linting. -/
def ofArguments (arguments : Arguments) : Except Refusal LintRequest := do
  (topicsOf arguments.settings).forM (checkTopic arguments)
  let format ← readFormat ((arguments.value? .format).getD Report.Format.text.word)
  let timeout? ← (arguments.value? .timeout).mapM readTimeout
  return {
    files := arguments.files
    config? := (arguments.value? .config).map Files.PathName.ofText
    level := levelOf arguments
    timeout? := timeout?
    console := ⟨arguments.isOn .deferred, format, arguments.switch? .colour⟩ }

end LintRequest

namespace Command

/-- What arguments ask for. -/
def ofArguments (arguments : List String) : Except Refusal Command :=
  match Arguments.read arguments with
  | .error misuse => .error (.misuse misuse)
  | .ok arguments =>
    match eager? arguments with
    | some command => .ok command
    | none => (LintRequest.ofArguments arguments).map .lint

end Command
end CommandLine
end MarkupLint
