import MarkupLint.Failure
import MarkupLint.Files.PathName
import MarkupLint.Table

/-!
# Trees of files

A tree of files has directories with named entries, regular files with bytes, and symbolic links
with the name that they stand for.  A host is such a tree as a process meets it, which may not be
permitted to do everything with what stands in the tree.
-/

namespace MarkupLint
namespace Files

/-- A file, a link, or a directory with its entries. -/
inductive FileNode where
  | file (bytes : List UInt8)
  | link (target : String)
  | directory (entries : List (String × FileNode))
deriving Inhabited

/-- A place in a tree: the names that lead to it from the root, the last one first. -/
abbrev Location := List String

/-- The name of a place, read from the root. -/
def Location.pathName (location : Location) : PathName := ⟨.slash, location.reverse⟩

namespace FileNode

/-- A directory without entries. -/
def empty : FileNode := directory []

/-- The entries of a directory. -/
def entries : FileNode → List (String × FileNode)
  | directory entries => entries
  | _ => []

/-- Whether this is a directory. -/
def isDirectory : FileNode → Bool
  | directory _ => true
  | _ => false

/-- Whether this is a regular file. -/
def isFile : FileNode → Bool
  | file _ => true
  | _ => false

/-- What stands at a place of the tree. -/
def at? (root : FileNode) : Location → Option FileNode
  | [] => some root
  | name :: above => (root.at? above).bind fun parent => Table.value? parent.entries name

/-- Put something at a place, with the directories that lead to it.  An empty directory does not
replace another one. -/
def insert (node added : FileNode) : List String → FileNode
  | [] => if added.entries.isEmpty && added.isDirectory && node.isDirectory then node else added
  | name :: rest =>
    let inner := ((Table.value? node.entries name).getD empty).insert added rest
    directory (Table.set node.entries name inner)

mutual

/-- The number of files, links and directories. -/
def size : FileNode → Nat
  | file _ => 1
  | link _ => 1
  | directory entries => 1 + sizeOfEntries entries

/-- The number of files, links and directories of entries. -/
def sizeOfEntries : List (String × FileNode) → Nat
  | [] => 0
  | (_, node) :: rest => size node + sizeOfEntries rest

end

@[simp] theorem at?_nil (root : FileNode) : root.at? [] = some root := rfl

end FileNode

/-- The number of links that are followed for one name. -/
def linkLimit : Nat := 40

/-- How deep calls can be nested in one another where they are nested as deep as what they are about.
There is room for as many links as are followed for one name. -/
structure Room where
  /-- For values inside values of a configuration text. -/
  values : Nat
  /-- For directories inside directories, and for the parts of a pattern. -/
  directories : Nat
  /-- For links that lead through links. -/
  links : Nat
  followed : linkLimit ≤ links
deriving DecidableEq, Repr

/-- The room that there usually is. -/
instance : Inhabited Room := ⟨⟨900, 900, 900, by decide⟩⟩

/-- A tree of files as a process meets it. -/
structure Host where
  root : FileNode
  /-- Whether the entries of the directory at a place may be listed. -/
  lists : Location → Bool
  /-- Whether names may be looked up in the directory at a place. -/
  searches : Location → Bool
  /-- Whether the file at a place may be read. -/
  reads : Location → Bool
  room : Room
deriving Inhabited

/-- A tree of files with which everything may be done, and the room that there usually is. -/
def FileNode.host (root : FileNode) : Host :=
  ⟨root, fun _ => true, fun _ => true, fun _ => true, default⟩

/-- Why a name leads to nothing, or to nothing that can be used. -/
inductive PathFault where
  | notFound
  | notPermitted
  | notDirectory
  | isDirectory
  | nameTooLong
  | tooManyLinks
  | nulCharacter
deriving DecidableEq, Repr, Inhabited

namespace PathFault

/-- The number and the wording of a fault of the file system. -/
def wording : PathFault → Nat × String
  | notFound => (2, "No such file or directory")
  | notPermitted => (13, "Permission denied")
  | notDirectory => (20, "Not a directory")
  | isDirectory => (21, "Is a directory")
  | nameTooLong => (36, "File name too long")
  | tooManyLinks => (40, "Too many levels of symbolic links")
  | nulCharacter => (22, "embedded null byte")

/-- The message about a fault, with the name that it is about. -/
def message (fault : PathFault) (path : String) : String :=
  let wording := fault.wording
  s!"[Errno {wording.1}] {wording.2}: {Text.quoted path}"

/-- The failure that a fault amounts to where it is not expected. -/
def failure (fault : PathFault) (path : String) : Failure :=
  match fault with
  | nulCharacter => .ofValue "embedded null byte"
  | notPermitted => .of "PermissionError" [notPermitted.message path]
  | other => .of "OSError" [other.message path]

/-- Whether the fault only means that there is nothing of the kind that is looked for. -/
def isAbsence : PathFault → Bool
  | nameTooLong => false
  | notPermitted => false
  | _ => true

end PathFault

/-- The number of bytes that a part of a name may have. -/
def partLimit : Nat := 255

/-- The number of bytes that a name may have. -/
def nameLimit : Nat := 4095

/-- The parts of a text between slashes. -/
def partsOf (text : String) : List String := (splitAt '/' text.toList).map String.ofList

/-- Whether a text begins with a slash. -/
def isRooted (text : String) : Bool := text.toList.head? == some '/'

namespace Host

/-- Whether a part of a name may be looked up in the directory at a place; empty parts are not. -/
def admits (host : Host) (location : Location) (part : String) : Bool :=
  part = "" || host.searches location

/-- Walk along the parts of a name from a place.  Links on the way are followed, as long as their
number is not above the limit; a link at the end is followed only if asked for. -/
def walk (host : Host) (followsLast : Bool) (links : Nat) (location : Location)
    (parts : List String) : Except PathFault Location :=
  match parts with
  | [] => .ok location
  | part :: rest =>
    match host.root.at? location with
    | some (.directory entries) =>
      if !host.admits location part then .error .notPermitted
      else if part = "" || part = "." then host.walk followsLast links location rest
      else if part = ".." then host.walk followsLast links (location.drop 1) rest
      else if part.utf8ByteSize > partLimit then .error .nameTooLong
      else
        match Table.value? entries part with
        | none => .error .notFound
        | some (.link target) =>
          if rest.isEmpty && !followsLast then .ok (part :: location)
          else
            match links with
            | 0 => .error .tooManyLinks
            | links + 1 =>
              host.walk followsLast links (if isRooted target then [] else location)
                (partsOf target ++ rest)
        | some _ => host.walk followsLast links (part :: location) rest
    | _ => .error .notDirectory
termination_by (links, parts.length)

/-- The place that an absolute name leads to. -/
def locate (host : Host) (followsLast : Bool) (path : String) : Except PathFault Location :=
  if path.toList.contains '\x00' then .error .nulCharacter
  else if path.utf8ByteSize > nameLimit then .error .nameTooLong
  else host.walk followsLast linkLimit [] (partsOf path)

/-- What an absolute name leads to. -/
def find (host : Host) (path : String) : Except PathFault FileNode :=
  match host.locate true path with
  | .error fault => .error fault
  | .ok location =>
    match host.root.at? location with
    | some node => .ok node
    | none => .error .notFound

/-- Whether a name leads to something, be it a link that leads to nothing. -/
def hasEntry (host : Host) (path : String) : Bool :=
  match host.locate false path with
  | .ok location => (host.root.at? location).isSome
  | .error _ => false

/-- Whether a name leads to something of a kind; a name that is too long and one that may not be looked
up are failures, which say how the name was written. -/
def leadsTo (kind : FileNode → Bool) (host : Host) (path written : String) :
    Except Failure Bool :=
  match host.find path with
  | .ok node => .ok (kind node)
  | .error fault => if fault.isAbsence then .ok false else .error (fault.failure written)

/-- Whether a name leads to a directory. -/
def isDirectoryAt (host : Host) (path : String) : Except Failure Bool :=
  host.leadsTo FileNode.isDirectory path path

/-- Whether a name leads to a regular file. -/
def isFileAt (host : Host) (path : String) : Except Failure Bool :=
  host.leadsTo FileNode.isFile path path

/-- The entries of the directory that a name leads to. -/
def entriesAt (host : Host) (path : String) : Except PathFault (List (String × FileNode)) :=
  match host.locate true path with
  | .error fault => .error fault
  | .ok location =>
    match host.root.at? location with
    | some (.directory entries) =>
      if host.lists location then .ok entries else .error .notPermitted
    | some _ => .error .notDirectory
    | none => .error .notFound

/-- The bytes of the regular file that a name leads to. -/
def readBytes (host : Host) (path : String) : Except PathFault (List UInt8) :=
  match host.locate true path with
  | .error fault => .error fault
  | .ok location =>
    match host.root.at? location with
    | some (.file bytes) => if host.reads location then .ok bytes else .error .notPermitted
    | some (.directory _) => .error (if host.lists location then .isDirectory else .notPermitted)
    | _ => .error .notFound

end Host
end Files
end MarkupLint
