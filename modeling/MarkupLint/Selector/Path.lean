import MarkupLint.Selector.Step
import MarkupLint.Selector.Token
import MarkupLint.Text.Integer
import MarkupLint.Text.Quoted

/-!
# Reading element paths

The tokens of a path are read one after another.  A slash may stand between two steps, two slashes
and the name behind them are one step, and brackets hold a condition, whose kind is told by its
tokens alone.
-/

namespace MarkupLint
namespace Selector

/-- Why a path is refused. -/
inductive Fault where
  | unknownPrefix (label : String)
  | invalidDescendant
  | positionBelowOne
  | unsupportedFunction
  | unsupportedExpression
  | offsetNotNegative
  | invalidCondition
  /-- The path ends inside a condition or behind two slashes. -/
  | unfinished
  /-- No step begins with the token. -/
  | misplaced (token : String)
  /-- A position has more digits than are converted. -/
  | numberTooLong (digits : Nat)
deriving DecidableEq, Repr, Inhabited

namespace Token

/-- The token in front of the others, unless it is a name with a prefix. -/
def next : List Token → Except Fault (Option (Token × List Token))
  | [] => .ok none
  | .prefixed label :: _ => .error (.unknownPrefix label)
  | token :: rest => .ok (some (token, rest))

end Token

namespace Condition

/-- Whether a name is an integer in decimal digits of any script. -/
def isInteger (name : String) : Bool :=
  let chars := name.toList
  let digits := if chars.head? == some '-' then chars.drop 1 else chars
  !digits.isEmpty && digits.all fun char => (Text.digitValue? char).isSome

/-- The inner part of a literal. -/
def unquote (literal : String) : String := String.ofList (literal.toList.drop 1).dropLast

/-- The condition of a position counted from one. -/
def ofPosition (numeral : String) : Except Fault Condition :=
  match Text.integer numeral.toList with
  | .error (.tooLong digits) => .error (.numberTooLong digits)
  | .error .malformed => .error .invalidCondition
  | .ok number => if number < 1 then .error .positionBelowOne else .ok (position (number - 1).toNat)

/-- The condition of a position counted back from the last one. -/
def ofOffset (numeral : String) : Except Fault Condition :=
  match Text.integer numeral.toList with
  | .error _ => .error .unsupportedExpression
  | .ok offset =>
    if offset > -1 then .error .offsetNotNegative else .ok (positionFromLast (-offset).toNat)

/-- The condition that a function with the given meaning writes, which must be the known one. -/
def ofFunction (name : String) (meaning : Except Fault Condition) : Except Fault Condition :=
  if name == "last" then meaning else .error .unsupportedFunction

/-- The condition that is written by the tokens between two brackets, blanks left out. -/
def ofTokens : List Token → Except Fault Condition
  | [.operator "@", .name name] => .ok (hasAttribute name)
  | [.operator "@", .name name, .operator "=", .literal value] =>
    .ok (.attribute name true (unquote value))
  | [.operator "@", .name name, .operator "!=", .literal value] =>
    .ok (.attribute name false (unquote value))
  | [.operator ".", .operator "=", .literal value] => .ok (content true (unquote value))
  | [.operator ".", .operator "!=", .literal value] => .ok (content false (unquote value))
  | [.name name, .operator "=", .literal value] =>
    if isInteger name then .error .invalidCondition
    else .ok (childContent (.ofText name) true (unquote value))
  | [.name name, .operator "!=", .literal value] =>
    if isInteger name then .error .invalidCondition
    else .ok (childContent (.ofText name) false (unquote value))
  | [.name name] => if isInteger name then ofPosition name else .ok (hasChild (.ofText name))
  | [.name name, .operator "()"] => ofFunction name (.ok (positionFromLast 0))
  | [.name name, .operator "(", .operator ")"] => ofFunction name (.ok (positionFromLast 0))
  | [.name name, .operator "()", .name offset] => ofFunction name (ofOffset offset)
  | [.name name, .operator "(", .operator ")", .name _] =>
    ofFunction name (.error .unsupportedExpression)
  | _ => .error .invalidCondition

end Condition

/-- A step, or nothing if the path ends inside it, and the tokens behind it. -/
abbrev ReadStep := Option Step × List Token

/-- Read the tokens of a condition up to the closing bracket, behind those already read, the last
first. -/
def readCondition (read : List Token) : List Token → Except Fault ReadStep
  | [] => .ok (none, [])
  | .prefixed label :: _ => .error (.unknownPrefix label)
  | .operator "]" :: rest => do
    return (some (.filter (← Condition.ofTokens read.reverse)), rest)
  | .blank :: rest => readCondition read rest
  | token :: rest => readCondition (token :: read) rest

/-- Read the name behind two slashes. -/
def readDescendant (tokens : List Token) : Except Fault ReadStep := do
  match ← Token.next tokens with
  | none => return (none, [])
  | some (.operator "*", rest) => return (some (.descendant .any), rest)
  | some (.name name, rest) => return (some (.descendant (.ofText name)), rest)
  | some (.blank, rest) => return (some (.descendant (.named "")), rest)
  | some _ => throw .invalidDescendant

/-- Read the step that begins with a token. -/
def readStep (token : Token) (rest : List Token) : Except Fault ReadStep :=
  match token with
  | .name name => .ok (some (.child (.ofText name)), rest)
  | .blank => .ok (some (.child (.named "")), rest)
  | .operator "*" => .ok (some (.child .any), rest)
  | .operator "." => .ok (some .self, rest)
  | .operator ".." => .ok (some .parent, rest)
  | .operator "//" => readDescendant rest
  | .operator "[" => readCondition [] rest
  | .operator text => .error (.misplaced text)
  | .literal text => .error (.misplaced text)
  | .prefixed label => .error (.unknownPrefix label)

/-- Read the steps of a path, in at most the given number of rounds.  A slash in front of a step is
left out, unless it is the first one. -/
def readSteps : Nat → List Token → Except Fault (List (Option Step))
  | 0, _ => .ok []
  | rounds + 1, tokens => do
    match ← Token.next tokens with
    | none => return []
    | some (token, rest) =>
      let (step, rest) ← readStep token rest
      let rest := if rest.head? == some (.operator "/") then rest.drop 1 else rest
      return step :: (← readSteps rounds rest)

/-- The steps of the path in a text.  A slash at its end stands for a slash and a star. -/
def Path.read (text : List Char) : Except Fault (List Step) := do
  let text := if text.getLast? == some '/' then text ++ ['*'] else text
  let tokens := Token.scan text
  let steps ← readSteps tokens.length tokens
  match steps.mapM id with
  | some steps => return steps
  | none => throw .unfinished

end Selector
end MarkupLint
