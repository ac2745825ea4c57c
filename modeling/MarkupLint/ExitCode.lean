/-!
# Exit codes

The codes by which the program tells how it came to its end.
-/

namespace MarkupLint

/-- How the program came to its end. -/
inductive ExitCode where
  | success
  | violations
  | unexpected
  | interrupted
  | configuration
deriving DecidableEq, Repr, Inhabited

namespace ExitCode

/-- The number of a code. -/
def number : ExitCode → Nat
  | success => 0
  | violations => 1
  | unexpected => 2
  | interrupted => 3
  | configuration => 4

/-- The name of a code. -/
def name : ExitCode → String
  | success => "SUCCESS"
  | violations => "VIOLATIONS"
  | unexpected => "UNEXPECTED"
  | interrupted => "INTERRUPTED"
  | configuration => "CONFIGURATION"

end ExitCode
end MarkupLint
