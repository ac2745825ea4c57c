import MarkupLint.Files.Resolve
import Mathlib.Data.String.Basic

/-!
# Finding entries of the root directory

A name of one part leads from the root directory to the entry with that name.  When the entry is no
link, the name is resolved already.
-/

namespace MarkupLint
namespace Files

theorem splitAt_of_notMem
    {separator : Char}
    {text : List Char}
    (apart : separator ∉ text) :
    splitAt separator text = [text] := by
  induction text with
  | nil => rfl
  | cons char rest ih =>
    rw [List.mem_cons, not_or] at apart
    rw [splitAt, if_neg (Ne.symm apart.1), ih apart.2]

/-- A part of a name that leads from a directory to the entry with that name. -/
structure IsPlain (part : String) : Prop where
  isTelling : PathName.isTelling part = true
  isBelow : part ≠ ".."
  isShort : part.utf8ByteSize ≤ partLimit
  isWhole : '/' ∉ part.toList
  isClean : '\x00' ∉ part.toList

instance (part : String) : Decidable (IsPlain part) :=
  decidable_of_iff
    (PathName.isTelling part = true ∧ part ≠ ".." ∧ part.utf8ByteSize ≤ partLimit ∧
      '/' ∉ part.toList ∧ '\x00' ∉ part.toList)
    ⟨fun ⟨telling, below, short, whole, clean⟩ => ⟨telling, below, short, whole, clean⟩,
      fun plain => ⟨plain.isTelling, plain.isBelow, plain.isShort, plain.isWhole, plain.isClean⟩⟩

namespace IsPlain

variable {part : String}

theorem ne (plain : IsPlain part) : part ≠ "" ∧ part ≠ "." := by
  have telling := plain.isTelling
  rwa [PathName.isTelling, Bool.and_eq_true, bne_iff_ne, bne_iff_ne] at telling

theorem partsOf_eq (plain : IsPlain part) : partsOf ("/" ++ part) = ["", part] := by
  have slash : ("/" ++ part).toList = '/' :: part.toList := by simp [String.toList_append]
  rw [partsOf, slash, splitAt, if_pos rfl, splitAt_of_notMem plain.isWhole]
  simp

end IsPlain

theorem partsOf_slash : partsOf "/" = ["", ""] := by decide

namespace PathName

theorem text_root : (⟨.slash, []⟩ : PathName).text = "/" := by decide

theorem text_entry (part : String) : (⟨.slash, [part]⟩ : PathName).text = "/" ++ part := by
  simp [text, rootText]

end PathName

namespace Host

variable {host : Host} {entries : List (String × FileNode)} {part : String}

theorem locate_root (top : host.root = .directory entries) : host.locate true "/" = .ok [] := by
  rw [locate, if_neg (by decide), if_neg (by decide), partsOf_slash]
  simp [walk, admits, top]

theorem find_root (top : host.root = .directory entries) :
    host.find "/" = .ok (.directory entries) := by
  rw [find, locate_root top]
  simp only [FileNode.at?_nil, top]

theorem entriesAt_root
    (top : host.root = .directory entries)
    (listed : host.lists [] = true) :
    host.entriesAt "/" = .ok entries := by
  rw [entriesAt, locate_root top]
  simp only [FileNode.at?_nil, top, listed, if_true]

/-- A name leads to the entry with that name, if there is one. -/
theorem locate_eq
    (top : host.root = .directory entries)
    (searched : host.searches [] = true)
    (plain : IsPlain part)
    (unlinked : ∀ target, Table.value? entries part ≠ some (.link target)) :
    host.locate true ("/" ++ part) =
      match Table.value? entries part with
      | some _ => .ok [part]
      | none => .error .notFound := by
  have clean : ¬("/" ++ part).toList.contains '\x00' = true := by
    simpa [String.toList_append] using plain.isClean
  have short : ¬("/" ++ part).utf8ByteSize > nameLimit := by
    have bound := plain.isShort
    rw [String.utf8ByteSize_append, show "/".utf8ByteSize = 1 by decide]
    simp only [partLimit, nameLimit] at bound ⊢
    omega
  rw [locate, if_neg clean, if_neg short, plain.partsOf_eq]
  have steps := And.intro plain.ne (Nat.not_lt.mpr plain.isShort)
  cases known : Table.value? entries part with
  | none => simp [walk, admits, top, searched, steps, plain.isBelow, known]
  | some node =>
    cases node with
    | link target => exact absurd known (unlinked target)
    | _ => simp [walk, admits, top, searched, steps, plain.isBelow, known]

theorem locate_entry
    {node : FileNode}
    (top : host.root = .directory entries)
    (searched : host.searches [] = true)
    (plain : IsPlain part)
    (known : Table.value? entries part = some node)
    (unlinked : ∀ target, node ≠ .link target) :
    host.locate true ("/" ++ part) = .ok [part] ∧ host.root.at? [part] = some node := by
  have located := @locate_eq host entries part top searched plain (by simpa [known] using unlinked)
  rw [known] at located
  exact ⟨located, by simp [FileNode.at?, FileNode.entries, top, known]⟩

theorem locate_missing
    (top : host.root = .directory entries)
    (searched : host.searches [] = true)
    (plain : IsPlain part)
    (missing : Table.value? entries part = none) :
    host.locate true ("/" ++ part) = .error .notFound := by
  have located := @locate_eq host entries part top searched plain (by simp [missing])
  rwa [missing] at located

theorem find_entry
    {node : FileNode}
    (top : host.root = .directory entries)
    (searched : host.searches [] = true)
    (plain : IsPlain part)
    (known : Table.value? entries part = some node)
    (unlinked : ∀ target, node ≠ .link target) :
    host.find ("/" ++ part) = .ok node := by
  obtain ⟨located, there⟩ := locate_entry top searched plain known unlinked
  simp only [find, located, there]

theorem readBytes_entry
    {bytes : List UInt8}
    (top : host.root = .directory entries)
    (searched : host.searches [] = true)
    (plain : IsPlain part)
    (known : Table.value? entries part = some (.file bytes))
    (readable : host.reads [part] = true) :
    host.readBytes ("/" ++ part) = .ok bytes := by
  obtain ⟨located, there⟩ := locate_entry top searched plain known (by simp)
  simp only [readBytes, located, there, readable, if_true]

theorem readBytes_missing
    (top : host.root = .directory entries)
    (searched : host.searches [] = true)
    (plain : IsPlain part)
    (missing : Table.value? entries part = none) :
    host.readBytes ("/" ++ part) = .error .notFound := by
  simp only [readBytes, locate_missing top searched plain missing]

theorem resolve_root (top : host.root = .directory entries) :
    host.resolve ⟨.slash, []⟩ = .ok ⟨.slash, []⟩ := by
  rw [resolve, PathName.text_root, Remainder.ofText, partsOf_slash]
  simp [resolveFrom, Location.pathName, PathName.text_root, find_root top]

/-- The name of an entry that is no link is resolved already. -/
theorem resolve_entry
    {node : FileNode}
    (top : host.root = .directory entries)
    (searched : host.searches [] = true)
    (plain : IsPlain part)
    (known : Table.value? entries part = some node)
    (unlinked : ∀ target, node ≠ .link target) :
    host.resolve ⟨.slash, [part]⟩ = .ok ⟨.slash, [part]⟩ := by
  have resolved : host.resolveFrom host.root.size [] [] [] [.part "", .part part] = .ok [part] := by
    have there : host.root.at? [part] = some node := by
      simp [FileNode.at?, FileNode.entries, top, known]
    have apart : host.linkAt? [part] = none := by
      rw [linkAt?, there]
      cases node with
      | link target => exact absurd rfl (unlinked target)
      | _ => rfl
    simp [resolveFrom, plain.ne, plain.isBelow, plain.isClean, apart]
  rw [resolve, PathName.text_entry, Remainder.ofText, plain.partsOf_eq, List.map_cons,
    List.map_cons, List.map_nil, resolved]
  simp only [Location.pathName, List.reverse_singleton, PathName.text_entry,
    find_entry top searched plain known unlinked]

end Host
end Files
end MarkupLint
