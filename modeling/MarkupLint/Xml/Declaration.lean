import MarkupLint.Xml.Scan

/-!
# The declaration that opens a document

It names a version, and may name an encoding and say whether the document stands alone.  Only the
last of these matters for reading.
-/

namespace MarkupLint
namespace Xml

/-- A name and value in the opening declaration, each with the text from it on. -/
structure PseudoAttribute where
  name : List Char
  nameAt : List Char
  value : List Char
  valueAt : List Char
deriving Repr

/-- Characters that a value in the opening declaration may hold. -/
def isDeclarationValueChar (char : Char) : Bool :=
  char.isAlphanum || char == '.' || char == '-' || char == '_'

/-- The next name and value with the text behind them, or nothing at the end.  A failure gives the
text from the character at fault on. -/
def pseudoAttribute (text : List Char) :
    Except (List Char) (Option (PseudoAttribute × List Char)) :=
  match text with
  | [] => .ok none
  | first :: _ =>
    if !isBlank first then .error text
    else
      let nameAt := skipBlanks text
      if nameAt.isEmpty then .ok none
      else
        let isPart := fun char : Char => char.toNat < 0x80 && char != '=' && !isBlank char
        let name := nameAt.takeWhile isPart
        match nameAt.dropWhile isPart with
        | [] => .error []
        | after@(char :: _) =>
          if char != '=' && !isBlank char then .error after
          else
            match skipBlanks after with
            | '=' :: rest =>
              if name.isEmpty then .error ('=' :: rest)
              else
                match skipBlanks rest with
                | [] => .error []
                | quote :: valueAt =>
                  if quote != '"' && quote != '\'' then .error (quote :: valueAt)
                  else
                    match valueAt.dropWhile isDeclarationValueChar with
                    | [] => .error []
                    | char :: behind =>
                      if char == quote then
                        let value := valueAt.takeWhile isDeclarationValueChar
                        .ok (some (⟨name, nameAt, value, valueAt⟩, behind))
                      else .error (char :: behind)
            | rest => .error rest

/-- Whether the end of a declaration says that the document stands alone. -/
def standaloneValue (found : PseudoAttribute) (behind : List Char) : Except (List Char) Bool :=
  if found.name != "standalone".toList then .error found.nameAt
  else if found.value != "yes".toList && found.value != "no".toList then .error found.valueAt
  else
    match skipBlanks behind with
    | [] => .ok (found.value == "yes".toList)
    | rest => .error rest

/-- Whether the declaration with this body says that the document stands alone.  A failure gives
the text from the character at fault on. -/
def declaredStandalone (body : List Char) : Except (List Char) Bool := do
  match ← pseudoAttribute body with
  | none => .error body
  | some (version, behind) =>
    if version.name != "version".toList then .error version.nameAt
    else
      match ← pseudoAttribute behind with
      | none => .ok false
      | some (second, behind) =>
        if second.name == "encoding".toList then
          if !(second.value.head?.any Char.isAlpha) then .error second.valueAt
          else
            match ← pseudoAttribute behind with
            | none => .ok false
            | some (third, behind) => standaloneValue third behind
        else standaloneValue second behind

end Xml
end MarkupLint
