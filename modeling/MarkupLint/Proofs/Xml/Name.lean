import MarkupLint.Xml.Namespace
import MarkupLint.Xml.Scan
import Mathlib.Data.List.Basic

/-!
# Names as they are written

A written name is made of name characters, with at most one colon between them.  So it has no brace
in it, and it is known from what it declares.
-/

namespace MarkupLint
namespace Xml

/-- A name without a prefix, or a part of another name. -/
structure IsNamePart (name : List Char) : Prop where
  some : name ≠ []
  named : ∀ char ∈ name, isNameChar char = true

/-- A name as a document can write it. -/
inductive IsWritten : List Char → Prop where
  | plain {name : List Char} (isPart : IsNamePart name) : IsWritten name
  | prefixed
      {label part : List Char}
      (isLabel : IsNamePart label)
      (isPart : IsNamePart part) :
      IsWritten (label ++ ':' :: part)

namespace IsNamePart

variable {name : List Char}

theorem singleton {char : Char} (named : isNameChar char = true) : IsNamePart [char] where
  some := List.cons_ne_nil _ _
  named := by simpa using named

theorem append
    (isPart : IsNamePart name)
    {more : List Char}
    (named : ∀ char ∈ more, isNameChar char = true) :
    IsNamePart (name ++ more) where
  some := by simp [isPart.some]
  named := List.forall_mem_append.mpr ⟨isPart.named, named⟩

theorem colon_notMem (isPart : IsNamePart name) : ':' ∉ name := fun held =>
  absurd (isPart.named _ held) (by decide)

theorem brace_notMem (isPart : IsNamePart name) : '{' ∉ name := fun held =>
  absurd (isPart.named _ held) (by decide)

theorem splitName_eq (isPart : IsNamePart name) : splitName name = ([], name) := by
  rw [splitName, if_neg]
  simpa using isPart.colon_notMem

theorem splitName_append
    {label : List Char}
    (isLabel : IsNamePart label)
    (part : List Char) :
    splitName (label ++ ':' :: part) = (label, part) := by
  have before : ∀ char ∈ label, (char != ':') = true := by
    rintro char held
    exact bne_iff_ne.mpr fun same => isLabel.colon_notMem (same ▸ held)
  rw [splitName, if_pos (by simp), List.takeWhile_append_of_pos before,
    List.dropWhile_append_of_pos before]
  simp

end IsNamePart

theorem mem_of_mem_splitName
    {name : List Char}
    {char : Char}
    (held : char ∈ (splitName name).2) :
    char ∈ name := by
  unfold splitName at held
  split at held
  · exact (List.dropWhile_suffix _).subset (List.mem_of_mem_tail held)
  · exact held

namespace IsWritten

variable {name other label : List Char}

theorem brace_notMem (written : IsWritten name) : '{' ∉ name := by
  cases written with
  | plain isPart => exact isPart.brace_notMem
  | prefixed isLabel isPart => simp [isLabel.brace_notMem, isPart.brace_notMem]

/-- What a name declares tells the name. -/
theorem eq_of_declaredPrefix?_eq_some
    (written : IsWritten name)
    (declares : declaredPrefix? name = some label) :
    name = ['x', 'm', 'l', 'n', 's'] ++ if label = [] then [] else ':' :: label := by
  unfold declaredPrefix? at declares
  cases written with
  | plain isPart =>
    rw [isPart.splitName_eq] at declares
    split at declares
    · next same =>
      cases declares
      simpa using same
    · next same => simp at same
    · contradiction
  | prefixed isLabel isPart =>
    rw [isLabel.splitName_append] at declares
    split at declares
    · next same => exact absurd (Prod.mk.inj same).1 isLabel.some
    · next same =>
      cases declares
      obtain ⟨rfl, rfl⟩ := Prod.mk.inj same
      rw [if_neg isPart.some]
    · contradiction

theorem declaredPrefix?_inj
    (written : IsWritten name)
    (writtenToo : IsWritten other)
    (declares : declaredPrefix? name = some label)
    (declaresToo : declaredPrefix? other = some label) :
    name = other := by
  rw [written.eq_of_declaredPrefix?_eq_some declares,
    writtenToo.eq_of_declaredPrefix?_eq_some declaresToo]

end IsWritten
end Xml
end MarkupLint
