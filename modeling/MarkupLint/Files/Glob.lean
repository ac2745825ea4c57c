import MarkupLint.Files.Pattern
import MarkupLint.Files.Tree

/-!
# Names that match a pattern

The parts of a pattern between slashes match the parts of names.  Two stars match any number of
directories.  Names with a leading point are matched only by parts with one.
-/

namespace MarkupLint
namespace Files
namespace Glob

/-- The part of a pattern in front of the last slash, without slashes at its end unless there is
nothing else, and the part behind it. -/
def splitLast (pattern : List Char) : List Char × List Char :=
  let behind := (pattern.reverse.takeWhile (· != '/')).reverse
  let front := pattern.take (pattern.length - behind.length)
  let stripped := (front.reverse.dropWhile (· == '/')).reverse
  (if stripped.isEmpty then front else stripped, behind)

/-- A name inside a directory. -/
def joined (directory name : String) : String :=
  if directory.isEmpty then name
  else if directory.toList.getLast? == some '/' then directory ++ name
  else directory ++ "/" ++ name

/-- Whether a name or a pattern has a leading point. -/
def isHidden (name : String) : Bool := name.toList.head? == some '.'

/-- Whether a name leads to a directory. -/
def isDirectory (host : Host) (path : String) : Bool :=
  match host.find path with
  | .ok node => node.isDirectory
  | .error _ => false

/-- Whether an entry of a directory is a directory or a link to one. -/
def isDirectoryEntry (host : Host) (directory : String) : String × FileNode → Bool
  | (_, .file _) => false
  | (name, .link _) => isDirectory host (joined directory name)
  | (_, .directory _) => true

/-- The names of the entries of a directory, or of those only that lead to directories. -/
def listing (host : Host) (onlyDirectories : Bool) (directory : String) : List String :=
  match host.entriesAt directory with
  | .ok entries =>
    let kept := if onlyDirectories then entries.filter (isDirectoryEntry host directory) else entries
    kept.map (·.1)
  | .error _ => []

/-- The names inside a directory that match one part of a pattern. -/
def matching (host : Host) (onlyDirectories : Bool) (directory part : String) :
    List String :=
  let names := listing host onlyDirectories directory
  let visible := if isHidden part then names else names.filter fun name => !isHidden name
  visible.filter (Pattern.ofText part).holds

/-- The names of everything inside a directory, as deep as there is room for. -/
def everything (host : Host) (onlyDirectories : Bool) : Nat → String → Except Failure (List String)
  | 0, _ => .error .tooDeep
  | room + 1, directory => do
    let names := (listing host onlyDirectories directory).filter fun name => !isHidden name
    let found ← names.mapM fun name => do
      let below ← everything host onlyDirectories room (joined directory name)
      return name :: below.map (joined name)
    return found.flatten

/-- The names inside a directory that match the last part of a pattern. -/
def inside (host : Host) (onlyDirectories : Bool) (room : Nat) (part directory : String) :
    Except Failure (List String) :=
  if Pattern.isMagic part then
    if directory.toList.contains '\x00' then .error (PathFault.nulCharacter.failure directory)
    else if part = "**" then do
      let itself := if directory.isEmpty || isDirectory host directory then [""] else []
      return itself ++ (← everything host onlyDirectories room directory)
    else .ok (matching host onlyDirectories directory part)
  else if part.isEmpty then .ok (if isDirectory host directory then [""] else [])
  else .ok (if host.hasEntry (joined directory part) then [part] else [])

/-- The names that match a pattern; its parts are nested in one another. -/
def expand (host : Host) (onlyDirectories : Bool) : Nat → List Char → Except Failure (List String)
  | 0, _ => .error .tooDeep
  | room + 1, pattern => do
    let front := (splitLast pattern).1
    let part := String.ofList (splitLast pattern).2
    let directories ←
      if front ≠ pattern ∧ Pattern.isMagic (String.ofList front) then expand host true room front
      else pure [String.ofList front]
    let found ← directories.mapM fun directory => do
      let names ← inside host onlyDirectories room part directory
      return names.map (joined directory)
    return found.flatten

end Glob

/-- Insert a text into a sorted list, behind those that are not greater. -/
def insertText (text : String) : List String → List String
  | [] => [text]
  | other :: rest => if text < other then text :: other :: rest else other :: insertText text rest

/-- The texts in order. -/
def sortTexts (texts : List String) : List String :=
  texts.foldl (fun sorted text => insertText text sorted) []

/-- The names that match an absolute pattern, in order. -/
def glob (host : Host) (pattern : String) : Except Failure (List String) :=
  (Glob.expand host false host.room.directories pattern.toList).map sortTexts

end Files
end MarkupLint
