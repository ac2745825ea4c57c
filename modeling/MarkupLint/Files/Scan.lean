import MarkupLint.Files.Glob
import MarkupLint.Files.Resolve
import MarkupLint.Log

/-!
# Finding the files to lint

An input is a pattern, a directory, or the name of a file.  Patterns stand for the files they
match, and directories for the drawings below them.  Every file is found once, by its resolved
name, unless it is ignored.
-/

namespace MarkupLint
namespace Files

/-- A log record about a scan. -/
def scanRecord (level : LogLevel) (message : String) : LogRecord :=
  ⟨level, "svglint.scanner", message⟩

/-- What a scan leads to: the files, in order, or a failure, and what is noted meanwhile. -/
structure Scan (α : Type) where
  result : Except Failure α
  logs : List LogRecord
deriving Inhabited

/-- Whether a list of texts comes before another one. -/
def comesBefore : List String → List String → Bool
  | [], _ :: _ => true
  | _, [] => false
  | first :: rest, other :: others => first < other || (first = other && comesBefore rest others)

/-- Insert parts of a name into a sorted list, behind those that are not greater. -/
def insertParts (parts : List String) : List (List String) → List (List String)
  | [] => [parts]
  | other :: rest =>
    if comesBefore parts other then parts :: other :: rest else other :: insertParts parts rest

/-- Lists of parts in order. -/
def sortParts (names : List (List String)) : List (List String) :=
  names.foldl (fun sorted parts => insertParts parts sorted) []

/-- The name of something below a directory. -/
def PathName.below (name : PathName) (parts : List String) : PathName :=
  { name with parts := name.parts ++ parts }

/-- The names that lead to regular files. -/
def onlyFiles (host : Host) (names : List PathName) : Except Failure (List PathName) := do
  let kept ← names.mapM fun name => do
    return if ← host.isFileAt name.text then [name] else []
  return kept.flatten

/-- Whether an entry of a directory is a link that may not be looked up. -/
def isBarrier (host : Host) (directory : PathName) : String × FileNode → Bool
  | (name, .link _) =>
    match host.find (directory.below [name]).text with
    | .error .notPermitted => true
    | _ => false
  | _ => false

/-- The drawings in a directory and below it, as deep as there is room for.  The directory is not
searched any further from a link on that may not be looked up. -/
def drawingsIn (host : Host) : Nat → PathName → Except Failure (List PathName)
  | 0, _ => .error .tooDeep
  | room + 1, directory =>
    match host.entriesAt directory.text with
    | .error .notPermitted => .ok []
    | .error fault => .error (fault.failure directory.text)
    | .ok entries => do
      let drawn := entries.filter fun entry => (Pattern.ofText "*.svg").holds entry.1
      let own ← onlyFiles host (drawn.map fun entry => directory.below [entry.1])
      let searched := entries.takeWhile fun entry => !isBarrier host directory entry
      let deeper ← searched.mapM fun entry =>
        match entry.2 with
        | .directory _ => drawingsIn host room (directory.below [entry.1])
        | .link _ => (host.isDirectoryAt (directory.below [entry.1]).text).map fun _ => []
        | .file _ => .ok []
      return own ++ deeper.flatten

/-- The drawings below a directory, in order. -/
def drawingsBelow (host : Host) (directory : PathName) : Except Failure (List PathName) := do
  let drawings ← drawingsIn host host.room.directories directory
  return (sortParts (drawings.map (·.parts))).map fun parts => { directory with parts := parts }

/-- What an input stands for, read from a base. -/
def expandInput (host : Host) (base : PathName) (input : String) : Scan (List PathName) :=
  let name := PathName.ofText input
  if Pattern.isMagic input then
    let pattern := if name.isAbsolute then input else (base.join name).text
    match glob host pattern with
    | .error failure => ⟨.error failure, []⟩
    | .ok names =>
      let logs :=
        if names.isEmpty then [scanRecord .warning s!"No files match '{input}'"] else []
      ⟨onlyFiles host (names.map PathName.ofText), logs⟩
  else
    let name := base.join name
    match host.isDirectoryAt name.text with
    | .error failure => ⟨.error failure, []⟩
    | .ok true => ⟨drawingsBelow host name, []⟩
    | .ok false => ⟨.ok [name], []⟩

/-- A scan between two files. -/
structure ScanState where
  /-- The files that have been found, the last one first. -/
  found : List PathName
  seen : List PathName
  logs : List LogRecord
deriving Inhabited

namespace ScanState

/-- A scan that fails in this state. -/
def failWith (state : ScanState) (failure : Failure) : Scan (List PathName) :=
  ⟨.error failure, state.logs⟩

/-- Note something. -/
def note (state : ScanState) (records : List LogRecord) : ScanState :=
  { state with logs := state.logs ++ records }

/-- Come upon a resolved file. -/
def visit (state : ScanState) (ignore : List String) (base name : PathName) : ScanState :=
  if state.seen.contains name then state
  else
    let state := { state with seen := name :: state.seen }
    if isIgnored ignore base name then
      state.note [scanRecord .debug s!"Excluded {name.text}"]
    else { state with found := name :: state.found }

/-- Come upon files that have to be resolved, up to the first failure. -/
def visitAll (host : Host) (ignore : List String) (base : PathName) (state : ScanState) :
    List PathName → ScanState × Option Failure
  | [] => (state, none)
  | name :: rest =>
    match host.resolve name with
    | .error failure => (state, some failure)
    | .ok resolved => visitAll host ignore base (state.visit ignore base resolved) rest

/-- Come upon the files that inputs stand for, up to the first failure. -/
def visitInputs (host : Host) (ignore : List String) (base : PathName) (state : ScanState) :
    List String → ScanState × Option Failure
  | [] => (state, none)
  | input :: rest =>
    let expanded := expandInput host base input
    let state := state.note expanded.logs
    match expanded.result with
    | .error failure => (state, some failure)
    | .ok names =>
      match state.visitAll host ignore base names with
      | (state, some failure) => (state, some failure)
      | (state, none) => visitInputs host ignore base state rest

end ScanState

/-- The files that inputs stand for, read from a base. -/
def scan (host : Host) (inputs ignore : List String) (base : PathName) :
    Scan (List PathName) :=
  match host.resolve base with
  | .error failure => ⟨.error failure, []⟩
  | .ok base =>
    match ScanState.visitInputs host ignore base ⟨[], [], []⟩ inputs with
    | (state, some failure) => state.failWith failure
    | (state, none) =>
      let count := state.found.length
      ⟨.ok state.found.reverse, state.logs ++ [scanRecord .info s!"Found {count} files"]⟩

end Files
end MarkupLint
