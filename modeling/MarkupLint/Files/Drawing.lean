import MarkupLint.Document
import MarkupLint.Files.Tree
import MarkupLint.Text.Utf8

/-!
# Documents in files

A file is read as UTF-8 text whose lines end with line feeds, and the text as a document.
-/

namespace MarkupLint
namespace Files

/-- Why a file is not read as a document: a refusal that is expected of files, or a failure. -/
inductive ReadStop where
  | refused (error : ParseError)
  | failure (failure : Failure)
deriving DecidableEq, Repr, Inhabited

/-- The text of bytes, with unified line ends. -/
def textOfBytes (bytes : List UInt8) : Except Text.DecodingFault String :=
  (Text.decode bytes).map fun chars => String.ofList (Text.unifyLines chars)

namespace Host

/-- The text of the file that a name leads to. -/
def readText (host : Host) (path : String) : Except ReadStop String :=
  match host.readBytes path with
  | .error .nulCharacter => .error (.failure (PathFault.nulCharacter.failure path))
  | .error fault => .error (.refused ⟨s!"Cannot read file: {fault.message path}", some path⟩)
  | .ok bytes =>
    match textOfBytes bytes with
    | .error fault => .error (.refused ⟨s!"Encoding error: {fault.message}", some path⟩)
    | .ok text => .ok text

/-- The document in the file that a name leads to. -/
def readDocument (host : Host) (path : String) : Except ReadStop Document :=
  match host.readText path with
  | .error stop => .error stop
  | .ok text => (Document.read text (some path)).mapError .refused

end Host
end Files
end MarkupLint
