/-!
# Names of files

The name of a file is a sequence of parts between slashes.  Empty parts and single points say
nothing and are left out; two points are kept, since what they mean depends on links.
-/

namespace MarkupLint
namespace Files

/-- What stands in front of the parts of a name: two slashes are different from one or more. -/
inductive Root where
  | relative
  | slash
  | doubleSlash
deriving DecidableEq, Repr, Inhabited

/-- The name of a file. -/
structure PathName where
  root : Root
  parts : List String
deriving DecidableEq, Repr, Inhabited

/-- The pieces of a text between separators. -/
def splitAt (separator : Char) : List Char → List (List Char)
  | [] => [[]]
  | char :: rest =>
    if char = separator then [] :: splitAt separator rest
    else
      match splitAt separator rest with
      | piece :: others => (char :: piece) :: others
      | [] => [[char]]

namespace PathName

/-- The root of a name. -/
def rootOf (text : List Char) : Root :=
  match (text.takeWhile (· == '/')).length with
  | 0 => .relative
  | 2 => .doubleSlash
  | _ => .slash

/-- Whether a part between slashes says anything. -/
def isTelling (part : String) : Bool := part != "" && part != "."

/-- The name that a text writes. -/
def ofText (text : String) : PathName :=
  let chars := text.toList
  ⟨rootOf chars, ((splitAt '/' chars).map String.ofList).filter isTelling⟩

/-- The text of a root. -/
def rootText : Root → String
  | .relative => ""
  | .slash => "/"
  | .doubleSlash => "//"

/-- The text of a name. -/
def text (name : PathName) : String :=
  if name.root = .relative && name.parts.isEmpty then "."
  else rootText name.root ++ String.intercalate "/" name.parts

/-- Whether the name does not depend on where it is read. -/
def isAbsolute (name : PathName) : Bool := name.root != .relative

/-- The name read relative to another one. -/
def join (base name : PathName) : PathName :=
  if name.isAbsolute then name else { base with parts := base.parts ++ name.parts }

/-- The last part. -/
def lastPart (name : PathName) : String := name.parts.getLast?.getD ""

/-- The parts that lead from a name to one below it. -/
def relativeTo? (name base : PathName) : Option (List String) :=
  if name.root = base.root && base.parts.isPrefixOf name.parts then
    some (name.parts.drop base.parts.length)
  else none

end PathName

/-- The text of a name as it is shown. -/
def tidy (text : String) : String := (PathName.ofText text).text

end Files
end MarkupLint
