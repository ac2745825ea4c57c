import MarkupLint.CommandLine.Run

/-!
# The program

The outer layer of the program: it takes over from the disk the tree of files that the arguments can
lead to, runs the program on it, and prints what it leads to.  Of the contents of files, only those
of configuration files and of the files to lint are taken over.
-/

namespace MarkupLint
namespace Disk

open Files

/-- The absolute name with the parts. -/
def nameOf (parts : List String) : String := "/" ++ String.intercalate "/" parts

/-- The parts of an absolute name. -/
def wayOf (name : String) : List String := (PathName.ofText name).parts

/-- The bytes of a file, none if it cannot be read. -/
def bytesAt (name : String) : IO (List UInt8) := do
  try return (← IO.FS.readBinFile name).toList
  catch _ => return []

/-- The name that a link leads to, its own if it leads to nothing. -/
def targetAt (name : String) : IO String := do
  try return toString (← IO.FS.realPath name)
  catch _ => return name ++ ".missing"

/-- Whether there is a link with a name. -/
def isLinkAt (name : String) : IO Bool := do
  let place := (← IO.currentDir) / name
  try return (← place.symlinkMetadata).type == .symlink
  catch _ => return false

/-- What stands at a name, with the contents of the files that a test picks. -/
partial def nodeAt (picks : String → Bool) (name : String) : IO FileNode := do
  if ← isLinkAt name then return .link (← targetAt name)
  let place := (← IO.currentDir) / name
  if ← place.isDir then
    let entries ← (← place.readDir).toList.mapM fun entry => do
      return (entry.fileName, ← nodeAt picks (name ++ "/" ++ entry.fileName))
    return .directory entries
  else if picks name then return .file (← bytesAt name)
  else return .file []

/-- The names that the links in a tree lead to. -/
partial def linksIn : FileNode → List String
  | .file _ => []
  | .link target => [target]
  | .directory entries => entries.flatMap fun entry => linksIn entry.2

/-- A tree that is being taken over, with the names that have been taken over. -/
structure Copy where
  tree : FileNode
  names : List String

/-- Take over what is at the end of a way, of which the first parts lead through no links, with all
that the links in it lead to. -/
partial def takeOver (picks : String → Bool) (copy : Copy) (front rest : List String) :
    IO Copy := do
  let name := nameOf front
  if front.length > 0 && (← isLinkAt name) then
    let target ← targetAt name
    let tree := copy.tree.insert (.link target) front
    if copy.names.contains (nameOf (wayOf target ++ rest)) then return { copy with tree := tree }
    takeOver picks { copy with tree := tree } [] (wayOf target ++ rest)
  else
    match rest with
    | ".." :: rest => takeOver picks copy front.dropLast rest
    | part :: rest => takeOver picks copy (front ++ [part]) rest
    | [] =>
      if copy.names.contains name then return copy
      let place := (← IO.currentDir) / name
      if !(← place.pathExists) then return copy
      let node ← nodeAt picks name
      let taken : Copy := ⟨copy.tree.insert node front, name :: copy.names⟩
      (linksIn node).foldlM (fun copy target => takeOver picks copy [] (wayOf target)) taken

/-- The names that a request can lead to from a directory. -/
def namesOf (request : CommandLine.LintRequest) (directory : PathName) : List PathName :=
  let fixed := fun (name : PathName) =>
    { name with parts := name.parts.takeWhile fun part => !Pattern.isMagic part }
  let inputs := request.files.map fun file => fixed (directory.join (.ofText file))
  let candidates := (Config.directoriesFrom directory directory.parts.length).flatMap fun above =>
    [above.join (.ofText Config.ownFileName), above.join (.ofText Config.projectFileName)]
  candidates ++ request.config?.toList.map directory.join ++ directory :: inputs

/-- Run the program for a request. -/
def execute (request : CommandLine.LintRequest) (directory : PathName) :
    IO CommandLine.Execution := do
  let names := (namesOf request directory).map PathName.parts
  let copyWith := fun picks =>
    names.foldlM (fun copy parts => takeOver picks copy [] parts) (⟨.empty, []⟩ : Copy)
  let named := request.config?.toList.map fun name => (directory.join name).text
  let isConfig := fun (name : String) =>
    let last := (PathName.ofText name).lastPart
    last == Config.ownFileName || last == Config.projectFileName || named.contains name
  let outline ← copyWith isConfig
  let targets := (request.targets outline.tree.host directory).map PathName.text
  let full ← copyWith fun name => isConfig name || targets.contains name
  return request.execute full.tree.host directory .creation

end Disk
end MarkupLint

/-- Run the program with the arguments that it is called with. -/
def main (arguments : List String) : IO UInt32 := do
  let directory := MarkupLint.Files.PathName.ofText (toString (← IO.currentDir))
  let execution ←
    match MarkupLint.CommandLine.Command.ofArguments arguments with
    | .ok (.lint request) => MarkupLint.Disk.execute request directory
    | _ =>
      pure (MarkupLint.CommandLine.run MarkupLint.Files.FileNode.empty.host directory .creation
        arguments)
  IO.print execution.output
  IO.eprint execution.errors
  return execution.exitCode.toUInt32
