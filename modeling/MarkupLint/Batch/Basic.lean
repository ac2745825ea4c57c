import MarkupLint.Config.Plan
import MarkupLint.Files.Drawing
import MarkupLint.Linting.Run

/-!
# Batches

A batch lints several files by one plan.  All files are opened in order before any linting takes a
turn; those that cannot be read are skipped.  Then the lintings take their turns side by side, while
the batch waits for each of them.
-/

namespace MarkupLint

/-- A file that could not be read as a document. -/
structure SkippedFile where
  path : String
  reason : String
deriving DecidableEq, Repr, Inhabited

namespace Batch

/-- A turn of a batch. -/
inductive Turn where
  /-- A turn of the linting with an index. -/
  | linting (index : Nat) (turn : Linting.Turn)
  /-- All files have been opened. -/
  | opened
  /-- Begin to wait for the lintings. -/
  | gather
  /-- Look whether the linting with an index has come to its end. -/
  | wait (index : Nat)
  /-- Count the linting with an index, which has come to its end. -/
  | settle (index : Nat)
  /-- Come to the end of the batch. -/
  | conclude
deriving DecidableEq, Repr, Inhabited

/-- Those who are told when a linting reaches a milestone. -/
inductive Watcher where
  /-- Counts the lintings that have come to their end. -/
  | tally
  /-- Notes that a linting has started. -/
  | progress
  /-- Takes a linting that has come to its end to be shown. -/
  | display
deriving DecidableEq, Repr, Inhabited

namespace Watcher

/-- The label by which a watcher is known. -/
def label : Watcher → String
  | tally => "tally"
  | progress => "progress"
  | display => "display"

/-- The watcher with a label. -/
def ofLabel? (label : String) : Option Watcher :=
  [tally, progress, display].find? fun watcher => watcher.label == label

/-- The observer that stands for a watcher. -/
def observer (watcher : Watcher) : Linting.Observer := ⟨watcher.label, .leave⟩

@[simp] theorem ofLabel?_label (watcher : Watcher) : ofLabel? watcher.label = some watcher := by
  cases watcher <;> decide

end Watcher
end Batch

/-- A batch between two turns. -/
structure Batch where
  precision : Precision
  /-- Whether the lintings are shown. -/
  isShown : Bool
  /-- The lintings in the order of the files. -/
  lintings : List Linting
  /-- The skipped files in the order of the files. -/
  skipped : List SkippedFile
  schedule : Schedule Batch.Turn
  /-- The number of lintings that have not come to their end. -/
  remaining : Int
  /-- The number of lintings that have come to their end with errors. -/
  errorCount : Nat
  /-- The names of the lintings with their states when they were first shown. -/
  presented : List (String × LintState)
  /-- The lintings that have been shown, as they were then, with their indices. -/
  shown : List (Nat × Linting)
  /-- The indices of the lintings that are waited for. -/
  awaited : List Nat
  /-- The number of lintings that have been counted. -/
  settled : Nat
  /-- What the batch leads to, once that is settled. -/
  closing? : Option (Except Linting.Refusal Unit)
  isOver : Bool
  logs : List LogRecord
deriving Inhabited

namespace Batch

/-- A batch without files. -/
def empty (precision : Precision) (precedence : Precedence Turn) (isShown : Bool) : Batch where
  precision := precision
  isShown := isShown
  lintings := []
  skipped := []
  schedule := .empty precision precedence
  remaining := 0
  errorCount := 0
  presented := []
  shown := []
  awaited := []
  settled := 0
  closing? := none
  isOver := false
  logs := []

/-- Note something. -/
def log (batch : Batch) (level : LogLevel) (channel message : String) : Batch :=
  { batch with logs := batch.logs ++ [⟨level, channel, message⟩] }

/-- Make a turn ready. -/
def soon (batch : Batch) (turn : Turn) : Batch :=
  { batch with schedule := batch.schedule.soon turn }

/-- Tell a watcher about the linting with an index, which is in a state. -/
def tell (batch : Batch) (index : Nat) (state : LintState) : Watcher → Batch
  | .tally =>
    let remaining := batch.remaining - 1
    let errorCount := if state = .error then batch.errorCount + 1 else batch.errorCount
    { batch with remaining := remaining, errorCount := errorCount }.log .debug "svglint.runner"
      s!"Linting done, {remaining} to go"
  | .progress =>
    match batch.lintings[index]? with
    | some linting => batch.log .debug "svglint.display" s!"Linting {linting.name}"
    | none => batch
  | .display =>
    match batch.lintings[index]? with
    | some linting => { batch with shown := batch.shown ++ [(index, linting)] }
    | none => batch

/-- Have one effect of a turn of the linting with an index. -/
def absorb (index : Nat) (batch : Batch) : Linting.Effect → Batch
  | .soon turn => batch.soon (.linting index turn)
  | .after seconds turn =>
    { batch with schedule := batch.schedule.after seconds (.linting index turn) }
  | .cancel turn => { batch with schedule := batch.schedule.cancel (.linting index turn) }
  | .log record => { batch with logs := batch.logs ++ [record] }
  | .invoked _ record => { batch with logs := batch.logs ++ [record] }
  | .called label state _ =>
    match Watcher.ofLabel? label with
    | some watcher => batch.tell index state watcher
    | none => batch
  | .ended => if batch.awaited.contains index then batch.soon (.wait index) else batch

/-- Take over what the linting with an index has done. -/
def follow (batch : Batch) (index : Nat) (progress : Linting.Progress) : Batch :=
  let lintings := batch.lintings.set index progress.linting
  progress.effects.foldl (absorb index) { batch with lintings := lintings }

/-- Let a watcher of the linting with an index wait for a milestone. -/
def watch (batch : Batch) (index : Nat) (milestone : Linting.Milestone) (watcher : Watcher) :
    Batch :=
  match batch.lintings[index]? with
  | some linting => batch.follow index (linting.subscribe milestone watcher.observer).1
  | none => batch

/-- Show the linting with an index from now on. -/
def present (batch : Batch) (index : Nat) (linting : Linting) : Batch :=
  let presented := batch.presented ++ [(linting.name, linting.state)]
  let batch := { batch with presented := presented }
  (batch.watch index .started .progress).watch index .done .display

/-- Start linting a document. -/
def enter (batch : Batch) (plan : Config.Plan) (document : Document) : Batch :=
  let index := batch.lintings.length
  let started := (Linting.new document plan.rules plan.timeout? batch.precision).start.1
  let batch :=
    { batch with
      lintings := batch.lintings ++ [started.linting]
      remaining := batch.remaining + 1 }
  let batch := (batch.follow index started).watch index .done .tally
  if batch.isShown then batch.present index started.linting else batch

/-- Skip a file that cannot be read. -/
def skip (batch : Batch) (path : String) (error : ParseError) : Batch :=
  let skipped := batch.skipped ++ [⟨path, error.message⟩]
  { batch with skipped := skipped }.log .error "svglint.runner"
    s!"Failed to lint file {path}: {error.message}"

/-- Open files in order; a file that is refused is skipped, and a failure ends the batch. -/
def openFiles (host : Files.Host) (plan : Config.Plan) (batch : Batch) :
    List Files.PathName → Except Failure Batch
  | [] => .ok (batch.soon .opened)
  | name :: rest =>
    match host.readDocument name.text with
    | .ok document => openFiles host plan (batch.enter plan document) rest
    | .error (.refused error) => openFiles host plan (batch.skip name.text error) rest
    | .error (.failure failure) => .error failure

end Batch
end MarkupLint
