import MarkupLint.Proofs.Files.Collecting
import MarkupLint.Proofs.Files.Reading

/-!
# Inputs that fail a scan

A scan comes to its end unless one of the inputs breaks it: a name is looked up for it that is too long
or that may not be looked up, it is a plain name that leads into a circle of links, or there is too
little room for what it stands for.  What an input contributes can be read or is refused later, and no
input changes what the others contribute.
-/

namespace MarkupLint
namespace Files

variable {host : Host} {base : PathName} {place : Location}

/-- An input breaks a scan with a failure. -/
inductive Breaks (host : Host) (place : Location) (input : String) (failure : Failure) : Prop
  | refusal {text : String} :
    LooksUp host place input text →
    host.IsRefused text text failure → Breaks host place input failure
  | circle {loop : String} :
    Pattern.isMagic input = false →
    (∀ turn, ¬host.LeadsTo (place.pathName.join (.ofText input)) turn) →
    failure = (.of "RuntimeError" [s!"Symlink loop from {Text.quoted loop}"]) →
    Breaks host place input failure
  | overrun :
    Overruns host place input →
    failure = .tooDeep → Breaks host place input failure
  | links :
    Pattern.isMagic input = false →
    host.IsCrowded →
    (∀ count turn, Host.Ends host count [] (place.pathName.join (.ofText input)).parts turn →
      host.room.links < count) →
    failure = .tooDeep → Breaks host place input failure

/-- A drawing beside a link to itself. -/
def looped : Host := FileNode.host (.directory [("a.svg", .file []), ("l.svg", .link "l.svg")])

end Files
end MarkupLint
