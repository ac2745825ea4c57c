import MarkupLint.Text.Quoted

/-!
# Failures

A failure is what a rule or an observer raises instead of coming to its end.  It has a kind, which
is part of what is reported, and details.  Those who handle failures do not handle all of them: a
cancellation and a grave failure go past them.  An exit and an interrupt are grave; besides, they stop
the loop that takes the turns, and what is said of turns holds once that is run again.
-/

namespace MarkupLint

namespace Failure

/-- What a failure may be besides what its kind says. -/
inductive Family where
  /-- A wrong value. -/
  | value
  /-- A value of a wrong type. -/
  | type
  /-- A missing key. -/
  | key
  /-- Something that the system refuses. -/
  | system
deriving DecidableEq, Repr, Inhabited

/-- Who handles a failure. -/
inductive Rank where
  /-- Those who handle failures do, and those who handle one of the families. -/
  | ordinary (families : List Family)
  /-- Nobody: a task ends by it as cancelled. -/
  | cancellation
  /-- Nobody. -/
  | grave
deriving DecidableEq, Repr, Inhabited

/-- The rank of the failures of a kind that is built in. -/
def Rank.ofKind (kind : String) : Rank :=
  if ["ValueError", "UnicodeError", "UnicodeDecodeError", "UnicodeEncodeError"].contains kind then
    .ordinary [.value]
  else if kind == "TypeError" then .ordinary [.type]
  else if kind == "KeyError" then .ordinary [.key]
  else if ["OSError", "IOError", "FileNotFoundError", "PermissionError"].contains kind then
    .ordinary [.system]
  else if kind == "CancelledError" then .cancellation
  else if ["BaseException", "GeneratorExit", "KeyboardInterrupt", "SystemExit"].contains kind then
    .grave
  else .ordinary []

end Failure

/-- A failure of a rule or an observer. -/
structure Failure where
  kind : String
  details : List String
  rank : Failure.Rank
deriving DecidableEq, Repr, Inhabited

namespace Failure

/-- A failure of a kind that is built in. -/
def of (kind : String) (details : List String) : Failure := ⟨kind, details, .ofKind kind⟩

/-- The failure that means a wrong value. -/
def ofValue (message : String) : Failure := .of "ValueError" [message]

/-- The failure that means a value of a wrong type. -/
def ofType (message : String) : Failure := .of "TypeError" [message]

/-- The failure by which a task ends as cancelled. -/
def cancelled : Failure := .of "CancelledError" []

/-- The failure of calls that are nested too deep in one another. -/
def tooDeep : Failure := .of "RecursionError" ["maximum recursion depth exceeded"]

/-- Whether a failure belongs to a family. -/
def isOf (failure : Failure) (family : Family) : Bool :=
  match failure.rank with
  | .ordinary families => families.contains family
  | _ => false

/-- Whether those who handle failures handle a failure. -/
def isException (failure : Failure) : Bool :=
  match failure.rank with
  | .ordinary _ => true
  | _ => false

/-- Whether a task ends as cancelled by a failure. -/
def isCancellation (failure : Failure) : Bool := failure.rank == .cancellation

/-- The details between parentheses. -/
def enclosed (details : List String) : String :=
  "(" ++ String.intercalate ", " (details.map Text.quoted) ++ ")"

/-- The wording of a failure: its only detail, quoted if the failure is a missing key. -/
def message (failure : Failure) : String :=
  match failure.details with
  | [] => ""
  | [detail] => if failure.isOf .key then Text.quoted detail else detail
  | [first, second] =>
    if failure.isOf .system then s!"[Errno {first}] {second}" else enclosed failure.details
  | _ => enclosed failure.details

/-- The kind and the wording, if there is one. -/
def report (failure : Failure) : String :=
  if failure.message.isEmpty then failure.kind else failure.kind ++ ": " ++ failure.message

/-- The kind with all details between parentheses. -/
def display (failure : Failure) : String := failure.kind ++ enclosed failure.details

end Failure
end MarkupLint
