import MarkupLint.Document
import MarkupLint.Failure
import MarkupLint.Selector.Path

/-!
# Selecting elements

A selector is an element path if it begins with a point or a slash.  Otherwise it is a chain of
names, each of which matches elements anywhere below those matched by the name before it.
Selecting starts from an element above the root, so that the root itself can be matched.
-/

namespace MarkupLint
namespace Selector

/-- The path that a selector stands for. -/
def pathText (selector : List Char) : List Char :=
  let stripped := Text.trim selector
  match stripped with
  | '.' :: _ => stripped
  | '/' :: _ => '.' :: stripped
  | _ => ['.', '/', '/'] ++ List.intercalate "//".toList (Text.words stripped)

/-- Why selecting fails: the path is refused, and which selector it belongs to. -/
structure Refusal where
  selector : String
  fault : Fault
deriving DecidableEq, Repr, Inhabited

namespace Fault

/-- The wording of a fault. -/
def message : Fault → String
  | unknownPrefix label => s!"prefix {Text.quoted label} not found in prefix map"
  | invalidDescendant => "invalid descendant"
  | positionBelowOne => "XPath position >= 1 expected"
  | unsupportedFunction => "unsupported function"
  | unsupportedExpression => "unsupported expression"
  | offsetNotNegative => "XPath offset from last() must be negative"
  | invalidCondition => "invalid predicate"
  | unfinished => "'NoneType' object is not callable"
  | misplaced token => token
  | numberTooLong digits => Text.tooManyDigits digits

end Fault

namespace Refusal

/-- The failure that a refusal amounts to.  It names the selector, unless the fault is a misplaced
token or a number that is too long. -/
def failure (refusal : Refusal) : Failure :=
  match refusal.fault with
  | .misplaced token => .of "KeyError" [token]
  | .numberTooLong digits => .ofValue (Text.tooManyDigits digits)
  | fault => .ofValue s!"Invalid selector '{refusal.selector}': {fault.message}"

end Refusal
end Selector

namespace Document

/-- The element above the root, from which selecting starts. -/
def wrapper (document : Document) : Element := ⟨"document", [], none, none, [document.root]⟩

/-- The elements that a selector selects.  Their positions are counted from the element above the
root.  Each step of a path asks the one before it for elements, so that calls are nested as deep as the
path is long: for about a thousand steps there is no room any more, and what is defined here is what
shorter paths select. -/
def select (document : Document) (selector : String) : Except Selector.Refusal (List Node) :=
  match Selector.Path.read (Selector.pathText selector.toList) with
  | .error fault => .error ⟨selector, fault⟩
  | .ok steps => .ok (Selector.Step.walk document.wrapper steps)

/-- The place of a selected element in document order, unless it is the one above the root. -/
def indexOf? (document : Document) (node : Node) : Option Nat :=
  match node.position with
  | [] => none
  | position => document.nodes.findIdx? fun found => found.position == position.dropLast

end Document
end MarkupLint
