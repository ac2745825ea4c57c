import MarkupLint.Batch.Run
import MarkupLint.CommandLine.Command
import MarkupLint.Config.Load
import MarkupLint.Files.Scan

/-!
# Running the program

What the program prints and the code with which it ends, for a tree of files, a working directory, an
order of the timers of one instant and the arguments.
-/

namespace MarkupLint
namespace CommandLine

/-- What the program prints and the code with which it ends. -/
structure Execution where
  exitCode : Nat
  output : String
  errors : String
deriving DecidableEq, Repr, Inhabited

/-- The name of the program with its version. -/
def versionText : String := "svglint, version 0.1.0"

/-- How the program is called. -/
def usageText : String := "Usage: svglint [OPTIONS] [FILES]..."

/-- The lines of the help behind the usage. -/
def helpLines : List String :=
  ["",
    "  SVGLint - lint SVG files against a set of configurable rules.",
    "",
    "  FILES may be paths, directories or glob patterns.",
    "",
    "Options:",
    "  --version              Show the version and exit.",
    "  -c, --config PATH      Config file (default: search upward for .svglintrc.toml",
    "                         or pyproject.toml)",
    "  -d, --debug            Show debug logs",
    "  --verbose              Show progress and timing",
    "  -C, --ci               Only output once, when linting is finished",
    "  --format [text|json]   Output format",
    "  --timeout FLOAT RANGE  Stop a rule after this many seconds without a report",
    "                         (overrides config)  [x>0]",
    "  --color / --no-color   Force or disable colored output",
    "  --help                 Show this message and exit."]

/-- Lines as they are printed. -/
def linesText (lines : List String) : String := String.join (lines.map (· ++ "\n"))

/-- Lines as they are printed without styles. -/
def plainLines (lines : List String) : String := Report.plain (linesText lines)

/-- The execution that only prints something. -/
def Execution.printing (lines : List String) : Execution := ⟨0, linesText lines, ""⟩

/-- The execution for refused arguments. -/
def Execution.refusing (refusal : Refusal) : Execution :=
  let usage :=
    if refusal.showsUsage then [usageText, "Try 'svglint --help' for help.", ""] else []
  ⟨2, "", plainLines (usage ++ [s!"Error: {refusal.message}"])⟩

/-- Log records of a level or a higher one as they are printed. -/
def logText (level : LogLevel) (records : List LogRecord) : String :=
  linesText ((records.filter (·.isAtLeast level)).map LogRecord.line)

/-- An unexpected failure as it is printed. -/
def failureText (activity : String) (failure : Failure) : String :=
  linesText [s!"svglint: Unexpected error while {activity}",
    s!"TRACEBACK {failure.kind}: {failure.message}"]

/-- The execution that ends with an unexpected failure, behind what has been printed as log. -/
def Execution.failing (log activity : String) (failure : Failure) : Execution :=
  ⟨ExitCode.unexpected.number, "", log ++ failureText activity failure⟩

/-- The execution that ends with an error of the configuration. -/
def Execution.misconfigured (log : String) (error : Config.Error) : Execution :=
  let place := (error.path?.map fun path => s!"  in: {path}").toList
  ⟨ExitCode.configuration.number, "",
    log ++ plainLines (s!"Error: {error.fault.message}" :: place)⟩

/-- The plan for a request, and what is noted meanwhile.  The seconds of the request count before
those of the configuration. -/
def LintRequest.plan (request : LintRequest) (host : Files.Host) (directory : Files.PathName) :
    Except Config.Stop Config.Plan × List LogRecord :=
  let loading := Config.load host directory request.config?
  match loading.result with
  | .error stop => (.error stop, loading.logs)
  | .ok settings =>
    let settings := { settings with timeout? := request.timeout? <|> settings.timeout? }
    let planned := Config.Plan.ofSettings .builtin settings
    (planned.1, loading.logs ++ planned.2)

/-- The failure that a batch without a result amounts to. -/
def batchFailure : Batch.Stop → Failure
  | .failure failure => failure
  | .refused refusal => refusal.failure
  | .endless => .of "RuntimeError" ["a rule never comes to its end"]

/-- Lint files by a plan; the log so far is given. -/
def LintRequest.lintFiles
    (request : LintRequest)
    (host : Files.Host)
    (plan : Config.Plan)
    (precedence : Precedence Batch.Turn)
    (log : String)
    (files : List Files.PathName) :
    Execution :=
  if files.isEmpty then ⟨ExitCode.success.number, linesText ["No files to lint."], log⟩
  else
    match Batch.lint host plan .binary64 precedence true files with
    | .error stop => .failing log "linting" (batchFailure stop)
    | .ok result =>
      ⟨result.exitCode.number, request.console.output result,
        log ++ logText request.level result.logs⟩

/-- Do what is asked for about linting. -/
def LintRequest.execute
    (request : LintRequest)
    (host : Files.Host)
    (directory : Files.PathName)
    (precedence : Precedence Batch.Turn) :
    Execution :=
  let planned := request.plan host directory
  let log := logText request.level planned.2
  match planned.1 with
  | .error (.error error) => .misconfigured log error
  | .error (.failure failure) => .failing log "loading configuration" failure
  | .ok plan =>
    let scan := Files.scan host request.files plan.ignore directory
    let log := log ++ logText request.level scan.logs
    match scan.result with
    | .error failure => .failing log "linting" failure
    | .ok files => request.lintFiles host plan precedence log files

/-- The files that are going to be linted, none if that fails before. -/
def LintRequest.targets
    (request : LintRequest)
    (host : Files.Host)
    (directory : Files.PathName) :
    List Files.PathName :=
  match (request.plan host directory).1 with
  | .error _ => []
  | .ok plan =>
    match (Files.scan host request.files plan.ignore directory).result with
    | .error _ => []
    | .ok files => files

/-- Run the program. -/
def run
    (host : Files.Host)
    (directory : Files.PathName)
    (precedence : Precedence Batch.Turn)
    (arguments : List String) :
    Execution :=
  match Command.ofArguments arguments with
  | .error refusal => .refusing refusal
  | .ok .showVersion => .printing [versionText]
  | .ok .showHelp => .printing (usageText :: helpLines)
  | .ok (.lint request) => request.execute host directory precedence

end CommandLine
end MarkupLint
