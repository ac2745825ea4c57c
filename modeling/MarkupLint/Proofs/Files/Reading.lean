import MarkupLint.Files.Drawing
import MarkupLint.Proofs.Files.Walking

/-!
# Reading files as documents

A file whose name has no null character is read as a document, or it is refused.  If the name leads to
no regular file, it is refused.
-/

namespace MarkupLint
namespace Files
namespace Host

theorem readBytes_ne_nulCharacter
    {path : String}
    (clean : '\x00' ∉ path.toList)
    (host : Host) :
    host.readBytes path ≠ .error .nulCharacter := by
  unfold readBytes
  split
  · next fault located =>
    rintro ⟨⟩
    exact host.locate_ne_nulCharacter true clean located
  · split <;> (try split) <;> simp

/-- A file whose name has no null character is read as a document, or it is refused. -/
theorem readDocument_ne_failure
    {path : String}
    (clean : '\x00' ∉ path.toList)
    (host : Host)
    (failure : Failure) :
    host.readDocument path ≠ .error (.failure failure) := by
  have text : host.readText path ≠ .error (.failure failure) := by
    unfold readText
    split
    · next failed => exact absurd failed (host.readBytes_ne_nulCharacter clean)
    · simp
    · split <;> simp
  unfold readDocument
  split
  · next stop refused =>
    rintro ⟨⟩
    exact text refused
  · next source known =>
    cases read : Document.read source (some path) <;> simp [Except.mapError]

/-- A file with a null character in its name cannot even be refused. -/
theorem readDocument_of_nulCharacter
    {path : String}
    (unclean : '\x00' ∈ path.toList)
    (host : Host) :
    host.readDocument path = .error (.failure (.ofValue "embedded null byte")) := by
  have located : host.locate true path = .error .nulCharacter := by
    unfold locate
    rw [if_pos (by simpa using unclean)]
  simp only [readDocument, readText, readBytes, located, PathFault.failure]

/-- A document knows the file that it is read from. -/
theorem file?_of_readDocument
    {host : Host}
    {path : String}
    {document : Document}
    (read : host.readDocument path = .ok document) :
    document.file? = some path := by
  unfold readDocument at read
  split at read
  · contradiction
  · next source known =>
    cases parsed : Document.read source (some path) with
    | error error => simp [parsed, Except.mapError] at read
    | ok other =>
      simp only [parsed, Except.mapError, Except.ok.injEq] at read
      subst read
      unfold Document.read at parsed
      split at parsed
      · contradiction
      · split at parsed
        · cases parsed
          rfl
        · contradiction

end Host
end Files
end MarkupLint
