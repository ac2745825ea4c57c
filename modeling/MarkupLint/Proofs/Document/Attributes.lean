import MarkupLint.Document
import MarkupLint.Proofs.Table
import MarkupLint.Proofs.Xml.Markup
import Mathlib.Data.List.Nodup

/-!
# The attributes of an element

The attributes of a start tag have different names before these lose their namespaces, and none has
the name of a declaration.  So the declarations come behind them, and what is left without namespaces
is known from the local names alone.
-/

namespace MarkupLint

/-- Entries with the same name are one entry, in the place of the first with the value of the last. -/
def Attributes.merged (entries : List (String × String)) : Attributes :=
  (entries.map (·.1)).eraseDups.filterMap fun name =>
    (Table.value? entries.reverse name).map fun value => (name, value)

theorem Attributes.ofPairs_eq_merged (entries : List (String × String)) :
    Table.ofPairs entries = merged entries := by
  rw [← Table.filterMap_keys (Table.nodup_keys_ofPairs entries), Table.keys_ofPairs, merged]
  simp only [Table.value?_ofPairs]

/-! ## Names -/

section Names

variable {name other : Xml.ExpandedName}

theorem isInNamespace_eq_false {name : String} (braceless : '{' ∉ name.toList) :
    isInNamespace name = false := by
  rw [isInNamespace, beq_eq_false_iff_ne]
  exact fun begins => braceless (List.mem_of_head? begins)

theorem isInNamespace_text (isPlain : name.IsPlain) :
    isInNamespace name.text = name.space?.isSome := by
  obtain ⟨space?, part⟩ := name
  cases space? with
  | none => exact isInNamespace_eq_false isPlain.local_plain
  | some space => simp [isInNamespace, Xml.ExpandedName.text]

theorem localName_text (isPlain : name.IsPlain) : localName name.text = name.localName := by
  rw [localName, isInNamespace_text isPlain]
  obtain ⟨space?, part⟩ := name
  cases space? with
  | none => rfl
  | some space =>
    have before : ∀ char ∈ '{' :: space.toList, (char != '}') = true := by
      refine List.forall_mem_cons.mpr ⟨rfl, fun char held => bne_iff_ne.mpr ?_⟩
      rintro rfl
      exact isPlain.space_plain space rfl held
    have text_eq : (Xml.ExpandedName.text ⟨some space, part⟩).toList =
        ('{' :: space.toList) ++ '}' :: part.toList := by
      simp [Xml.ExpandedName.text]
    rw [Option.isSome_some, if_pos rfl, text_eq, List.dropWhile_append_of_pos before]
    simp

theorem Xml.ExpandedName.text_inj
    (isPlain : name.IsPlain)
    (isPlainToo : other.IsPlain)
    (same : name.text = other.text) :
    name = other := by
  have part_eq : name.localName = other.localName := by
    rw [← localName_text isPlain, same, localName_text isPlainToo]
  have isSome_eq : name.space?.isSome = other.space?.isSome := by
    rw [← isInNamespace_text isPlain, same, isInNamespace_text isPlainToo]
  obtain ⟨space?, part⟩ := name
  obtain ⟨otherSpace?, otherPart⟩ := other
  cases part_eq
  cases space? <;> cases otherSpace? <;> simp_all [text]

theorem isInNamespace_declarationName (label : String) :
    isInNamespace (TreeBuilder.declarationName label) = false := by
  unfold TreeBuilder.declarationName
  split
  · rfl
  · simp [isInNamespace]

theorem TreeBuilder.declarationName_inj {label other : String}
    (same : declarationName label = declarationName other) :
    label = other := by
  have shorter : ∀ more, "xmlns" ≠ "xmlns:" ++ more := fun more same => by
    simpa using congrArg String.toList same
  unfold declarationName at same
  split at same <;> split at same
  · simp_all
  · exact absurd same (shorter _)
  · exact absurd same.symm (shorter _)
  · simpa using same

end Names

/-- Names that are all different stay so when they lose no namespace. -/
theorem Attributes.stripNamespaces_eq {attributes : Attributes} (distinct : attributes.keys.Nodup) :
    attributes.stripNamespaces =
      .merged (attributes.map fun entry => (localName entry.1, entry.2)) := by
  rw [stripNamespaces, ← ofPairs_eq_merged]
  split
  · rfl
  · next outside =>
    rw [List.any_eq_true, not_exists] at outside
    have kept : attributes.map (fun entry => (localName entry.1, entry.2)) = attributes := by
      refine (List.map_congr_left fun entry held => ?_).trans (List.map_id attributes)
      rw [localName, if_neg fun inside => outside entry ⟨held, inside⟩]
      rfl
    rw [kept, Table.ofPairs_eq_self distinct]

/-! ## Start tags -/

namespace Xml
namespace StartTag

/-- The attributes of an element before its names lose their namespaces. -/
def entries (tag : StartTag) : Attributes :=
  tag.own.map (fun pair => (pair.1.text, pair.2)) ++
    tag.declared.map fun pair => (TreeBuilder.declarationName pair.1, pair.2)

/-- The name of an attribute has a brace in front, or is none that a declaration can have. -/
theorem text_ne_declarationName
    (tag : StartTag)
    {pair : ExpandedName × String}
    (held : pair ∈ tag.own)
    (label : String) :
    pair.1.text ≠ TreeBuilder.declarationName label := by
  intro same
  have inNone : pair.1.space? = none := by
    rw [← Option.not_isSome_iff_eq_none, ← isInNamespace_text (tag.arePlain pair held), same,
      isInNamespace_declarationName]
    exact Bool.false_ne_true
  obtain ⟨other, unprefixed⟩ := tag.undeclared pair held inNone
  rw [ExpandedName.text, inNone] at same
  dsimp only at same
  unfold TreeBuilder.declarationName at same
  split at same
  · exact other same
  · simp [same] at unprefixed

theorem nodup_keys_entries (tag : StartTag) : tag.entries.keys.Nodup := by
  have keys_eq : tag.entries.keys = (tag.own.map (·.1)).map ExpandedName.text ++
      (tag.declared.map (·.1)).map TreeBuilder.declarationName := by
    simp only [entries, Table.keys, List.map_append, List.map_map]
    rfl
  have own_nodup : ((tag.own.map (·.1)).map ExpandedName.text).Nodup := by
    refine tag.own_nodup.map_on fun name held other heldToo same => ?_
    obtain ⟨pair, isOwn, rfl⟩ := List.mem_map.mp held
    obtain ⟨otherPair, isOwnToo, rfl⟩ := List.mem_map.mp heldToo
    exact ExpandedName.text_inj (tag.arePlain _ isOwn) (tag.arePlain _ isOwnToo) same
  have declared_nodup : ((tag.declared.map (·.1)).map TreeBuilder.declarationName).Nodup :=
    tag.declared_nodup.map fun _ _ same => TreeBuilder.declarationName_inj same
  rw [keys_eq]
  refine own_nodup.append declared_nodup fun key held heldToo => ?_
  rw [List.map_map] at held
  obtain ⟨pair, isOwn, rfl⟩ := List.mem_map.mp held
  obtain ⟨label, -, same⟩ := List.mem_map.mp heldToo
  exact tag.text_ne_declarationName isOwn label same.symm

/-- The attributes of an element: its own under their local names, then one for each namespace
declaration of its start tag. -/
def attributes (tag : StartTag) : Attributes :=
  .merged (tag.own.map (fun pair => (pair.1.localName, pair.2)) ++
    tag.declared.map fun pair => (TreeBuilder.declarationName pair.1, pair.2))

theorem nodup_keys_attributes (tag : StartTag) : tag.attributes.keys.Nodup := by
  rw [attributes, ← Attributes.ofPairs_eq_merged]
  exact Table.nodup_keys_ofPairs _

theorem stripNamespaces_entries (tag : StartTag) :
    tag.entries.stripNamespaces = tag.attributes := by
  rw [Attributes.stripNamespaces_eq tag.nodup_keys_entries, attributes, entries, List.map_append,
    List.map_map, List.map_map]
  congr 2
  · refine List.map_congr_left fun pair held => ?_
    rw [Function.comp_apply, localName_text (tag.arePlain pair held)]
  · refine List.map_congr_left fun pair _ => ?_
    rw [Function.comp_apply, localName, isInNamespace_declarationName]
    rfl

end StartTag
end Xml
end MarkupLint
