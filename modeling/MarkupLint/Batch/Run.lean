import MarkupLint.Batch.Basic
import MarkupLint.ExitCode
import MarkupLint.Linting.Session

/-!
# Running a batch

The batch waits for all lintings at once.  It comes to its end when all of them have been counted,
or as soon as one of them turns out to have failed.
-/

namespace MarkupLint
namespace Batch

/-- Begin to wait for every linting; without lintings the batch is at its end. -/
def gather (batch : Batch) : Batch :=
  if batch.lintings.isEmpty then
    { batch with closing? := some (.ok ()) }.soon .conclude
  else
    (List.range batch.lintings.length).foldl (fun batch index => batch.soon (.wait index)) batch

/-- Look whether the linting with an index has come to its end. -/
def wait (batch : Batch) (index : Nat) : Batch :=
  match batch.lintings[index]?.bind (·.answer?) with
  | some _ => batch.soon (.settle index)
  | none => { batch with awaited := index :: batch.awaited }

/-- Count the linting with an index, or close the batch if the linting has failed. -/
def settle (batch : Batch) (index : Nat) : Batch :=
  if batch.closing?.isSome then batch
  else
    match batch.lintings[index]?.bind (·.answer?) with
    | some (.error refusal) => { batch with closing? := some (.error refusal) }.soon .conclude
    | _ =>
      let batch := { batch with settled := batch.settled + 1 }
      if batch.settled = batch.lintings.length then
        { batch with closing? := some (.ok ()) }.soon .conclude
      else batch

/-- Come to the end. -/
def conclude (batch : Batch) : Batch :=
  let seconds := (Binary64.ofRat batch.schedule.now).hundredthsText
  { batch with isOver := true }.log .info "svglint.runner" s!"Completed in {seconds}s"

/-- Take a turn. -/
def take (batch : Batch) : Turn → Batch
  | .linting index turn =>
    match batch.lintings[index]? with
    | some linting => batch.follow index (linting.take batch.schedule.now turn)
    | none => batch
  | .opened => batch.soon .gather
  | .gather => batch.gather
  | .wait index => batch.wait index
  | .settle index => batch.settle index
  | .conclude => batch.conclude

/-- One turn of the batch, unless nothing can ever happen again. -/
def step? (batch : Batch) : Option Batch :=
  batch.schedule.next?.map fun next => { batch with schedule := next.2 }.take next.1

/-- One turn of the batch, unless it is over or can never go on. -/
def next? (batch : Batch) : Option Batch :=
  if batch.isOver then none else batch.step?

/-- Take turns until the batch is over or can never go on. -/
def run (batch : Batch) : Batch :=
  Id.run <| repeatM (fun current : Batch =>
    match current.next? with
    | some later => pure (.inl later)
    | none => pure (.inr current)) batch

/-- Why a batch has no result. -/
inductive Stop where
  /-- A file could not be opened for a reason that is not expected of files. -/
  | failure (failure : Failure)
  /-- A linting failed. -/
  | refused (refusal : Linting.Refusal)
  /-- A linting never comes to its end. -/
  | endless
deriving DecidableEq, Repr, Inhabited

/-- Put a skipped file into a list that is sorted by names, behind those that are not greater. -/
def insertSkipped (file : SkippedFile) : List SkippedFile → List SkippedFile
  | [] => [file]
  | other :: rest =>
    if file.path < other.path then file :: other :: rest else other :: insertSkipped file rest

/-- Skipped files in the order of their names. -/
def sortSkipped (files : List SkippedFile) : List SkippedFile :=
  files.foldl (fun sorted file => insertSkipped file sorted) []

/-- What a batch leads to. -/
structure Result where
  /-- The lintings in the order of the files. -/
  lintings : List Linting
  /-- The skipped files in the order of their names. -/
  skipped : List SkippedFile
  errorCount : Nat
  presented : List (String × LintState)
  /-- The lintings in the order in which they came to their end, as they were shown then, with their
  indices. -/
  shown : List (Nat × Linting)
  logs : List LogRecord
  time : Rat
deriving Inhabited

namespace Result

/-- How the program comes to its end. -/
def exitCode (result : Result) : ExitCode :=
  if result.errorCount > 0 then .violations else .success

end Result

/-- The result of a batch that has been run. -/
def result (batch : Batch) : Except Stop Result :=
  match batch.isOver, batch.closing? with
  | true, some (.error refusal) => .error (.refused refusal)
  | true, some (.ok ()) =>
    .ok
      { lintings := batch.lintings
        skipped := sortSkipped batch.skipped
        errorCount := batch.errorCount
        presented := batch.presented
        shown := batch.shown
        logs := batch.logs
        time := batch.schedule.now }
  | _, _ => .error .endless

/-- Lint files by a plan. -/
def lint
    (host : Files.Host)
    (plan : Config.Plan)
    (precision : Precision)
    (precedence : Precedence Turn)
    (isShown : Bool)
    (files : List Files.PathName) :
    Except Stop Result :=
  match openFiles host plan (empty precision precedence isShown) files with
  | .error failure => .error (.failure failure)
  | .ok batch => batch.run.result

/-- Lint one file on its own by a plan; the answers are those to starting the linting and to waiting for
its end. -/
def lintFile
    (host : Files.Host)
    (plan : Config.Plan)
    (precision : Precision)
    (precedence : Precedence Linting.SessionTurn)
    (file : Files.PathName) :
    Except Files.ReadStop (List Linting.Answer) :=
  (host.readDocument file.text).map fun document =>
    Linting.Session.answersOf (.new document plan.rules plan.timeout? precision) precedence
      [.start, .wait]

/-- Lint a document by what is given as a configuration; the answers are those to starting the
linting and to waiting for its end.  Also what is noted while the configuration is read. -/
def lintDocument
    (registry : Rule.Registry)
    (document : Document)
    (given : Config.Plan.Given)
    (precision : Precision)
    (precedence : Precedence Linting.SessionTurn) :
    Except Config.Stop (List Linting.Answer) × List LogRecord :=
  match Config.Plan.ofGiven registry given with
  | (.error stop, logs) => (.error stop, logs)
  | (.ok plan, logs) =>
    (.ok (Linting.Session.answersOf (.new document plan.rules plan.timeout? precision) precedence
      [.start, .wait]), logs)

/-- Lint a text, which is read as a document first. -/
def lintSource
    (registry : Rule.Registry)
    (source : String)
    (given : Config.Plan.Given)
    (precision : Precision)
    (precedence : Precedence Linting.SessionTurn) :
    Except ParseError (Except Config.Stop (List Linting.Answer) × List LogRecord) :=
  (Document.read source none).map fun document =>
    lintDocument registry document given precision precedence

end Batch
end MarkupLint
