import MarkupLint.Text.Blank

/-!
# Tokens of element paths

A path is cut into operators, quoted literals, names and blanks.  The longest alternative of the
first kind that fits is taken, and a character that begins no token is skipped.
-/

namespace MarkupLint
namespace Selector

/-- A token of an element path. -/
inductive Token where
  | operator (text : String)
  /-- A literal with its quotes. -/
  | literal (text : String)
  | name (text : String)
  /-- A name whose prefix has no meaning, since no prefix has one in a path. -/
  | prefixed (label : String)
  | blank
deriving DecidableEq, Repr, Inhabited

namespace Token

/-- The characters of the operators of one character. -/
def operatorChars : List Char := "/.*:[]()@=".toList

/-- Whether the character ends a name. -/
def endsName (char : Char) : Bool := "/[]()@!=".toList.contains char || Text.isBlank char

/-- The operator at the front of a text, and what follows it. -/
def operator? : List Char → Option (String × List Char)
  | ':' :: ':' :: rest => some ("::", rest)
  | '/' :: '/' :: rest => some ("//", rest)
  | '.' :: '.' :: rest => some ("..", rest)
  | '(' :: ')' :: rest => some ("()", rest)
  | '!' :: '=' :: rest => some ("!=", rest)
  | char :: rest =>
    if operatorChars.contains char then some (String.singleton char, rest) else none
  | [] => none

/-- The literal at the front of a text, with its quotes, and what follows it. -/
def literal? : List Char → Option (String × List Char)
  | [] => none
  | quote :: rest =>
    if quote == '\'' || quote == '"' then
      match rest.dropWhile (· != quote) with
      | [] => none
      | _ :: behind =>
        let inner := rest.takeWhile (· != quote)
        some (String.ofList (quote :: inner ++ [quote]), behind)
    else none

/-- A namespace in braces at the front of a text, with its braces, and what follows it; at least
one character must stand in the braces. -/
def bracedNamespace? : List Char → Option (List Char × List Char)
  | '{' :: rest =>
    match rest.takeWhile (· != '}'), rest.dropWhile (· != '}') with
    | first :: inner, _ :: behind => some ('{' :: first :: inner ++ ['}'], behind)
    | _, _ => none
  | _ => none

/-- The name at the front of a text, and what follows it.  A namespace in braces may hold any
characters, if a name follows it. -/
def name? (text : List Char) : Option (List Char × List Char) :=
  let plain := fun text : List Char =>
    match text.takeWhile (!endsName ·) with
    | [] => none
    | first :: inner => some (first :: inner, text.dropWhile (!endsName ·))
  match bracedNamespace? text with
  | some (braced, behind) =>
    match plain behind with
    | some (behindBrace, rest) => some (braced ++ behindBrace, rest)
    | none => plain text
  | none => plain text

/-- The token of a name: a colon ends a prefix, unless the name begins with a brace. -/
def ofName (name : List Char) : Token :=
  if name.head? != some '{' && name.contains ':' then
    .prefixed (String.ofList (name.takeWhile (· != ':')))
  else .name (String.ofList name)

/-- The tokens of a text, in at most the given number of rounds. -/
def scanFrom : Nat → List Char → List Token
  | 0, _ => []
  | _ + 1, [] => []
  | rounds + 1, char :: rest =>
    let text := char :: rest
    match literal? text with
    | some (text, behind) => .literal text :: scanFrom rounds behind
    | none =>
      match operator? text with
      | some (text, behind) => .operator text :: scanFrom rounds behind
      | none =>
        match name? text with
        | some (text, behind) => ofName text :: scanFrom rounds behind
        | none =>
          if Text.isBlank char then .blank :: scanFrom rounds (rest.dropWhile Text.isBlank)
          else scanFrom rounds rest

/-- The tokens of a text. -/
def scan (text : List Char) : List Token := scanFrom text.length text

@[simp] theorem scan_nil : scan [] = [] := rfl

end Token
end Selector
end MarkupLint
