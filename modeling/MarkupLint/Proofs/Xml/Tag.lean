import MarkupLint.Proofs.Traversal
import MarkupLint.Proofs.Xml.Markup
import MarkupLint.Proofs.Xml.Prolog
import Mathlib.Data.List.Nodup
import Mathlib.Tactic.SplitIfs

/-!
# What reading a start tag records

The names in a start tag and the defaults of its element are different.  Each of them either
declares a prefix, which is recorded at once, or is an attribute of the tag.
-/

namespace MarkupLint
namespace Xml

/-- No prefix is bound to a namespace with a closing brace in its name. -/
def Bindings.IsPlain (bindings : Bindings) : Prop :=
  ∀ binding ∈ bindings, '}' ∉ binding.2

namespace Bindings

variable {bindings : Bindings} {name label space : List Char} {expanded : ExpandedName}

theorem IsPlain.of_bind
    (isPlain : bindings.IsPlain)
    {extended : Bindings}
    (bound : bindings.bind label name = .ok extended) :
    extended.IsPlain := by
  unfold bind at bound
  split_ifs at bound with _ _ brace
  cases bound
  exact List.forall_mem_cons.mpr ⟨by simpa using brace, isPlain⟩

theorem IsPlain.of_find?
    (isPlain : bindings.IsPlain)
    (found : bindings.find? label = some space) :
    '}' ∉ space := by
  unfold find? at found
  split at found
  · contradiction
  · next known =>
    cases found
    obtain ⟨front, back, rfl, -⟩ := List.lookup_eq_some_iff.mp known
    exact isPlain (label, space) (by simp)
  · split at found
    · cases found
      decide
    · contradiction

theorem IsPlain.isPlain_expanded
    (isPlain : bindings.IsPlain)
    (found : bindings.find? label = some space)
    (braceless : '{' ∉ name) :
    ExpandedName.IsPlain ⟨some (String.ofList space), String.ofList name⟩ where
  space_plain := by
    rintro _ ⟨⟩
    simpa using isPlain.of_find? found
  local_plain := by simpa using braceless

/-- The name of an attribute is in a namespace just if it has a prefix. -/
theorem attributeName_cases
    (isPlain : bindings.IsPlain)
    (written : IsWritten name)
    (known : bindings.attributeName name = .ok expanded) :
    expanded.IsPlain ∧
      (expanded.space? = none → ':' ∉ name ∧ expanded.localName = String.ofList name) := by
  unfold attributeName at known
  split at known
  · split at known
    · next space found =>
      cases known
      refine ⟨isPlain.isPlain_expanded found ?_, by simp⟩
      exact fun held => written.brace_notMem (mem_of_mem_splitName held)
    · contradiction
  · next colon =>
    cases known
    exact ⟨⟨by simp, by simpa using written.brace_notMem⟩, fun _ => ⟨by simpa using colon, rfl⟩⟩

theorem attributeName_sound
    (isPlain : bindings.IsPlain)
    (written : IsWritten name)
    (undeclared : declaredPrefix? name = none)
    (known : bindings.attributeName name = .ok expanded) :
    expanded.IsPlain ∧ (expanded.space? = none →
      expanded.localName ≠ "xmlns" ∧ ':' ∉ expanded.localName.toList) := by
  obtain ⟨isPlainToo, local_eq⟩ := attributeName_cases isPlain written known
  refine ⟨isPlainToo, fun inNone => ?_⟩
  obtain ⟨unprefixed, local_eq⟩ := local_eq inNone
  refine ⟨fun same => ?_, by simpa [local_eq] using unprefixed⟩
  cases String.ofList_injective (local_eq.symm.trans same)
  contradiction

theorem isPlain_of_elementName
    (isPlain : bindings.IsPlain)
    (written : IsWritten name)
    (known : bindings.elementName name = .ok expanded) :
    expanded.IsPlain := by
  have braceless : '{' ∉ (splitName name).2 := fun held =>
    written.brace_notMem (mem_of_mem_splitName held)
  simp only [elementName] at known
  split at known
  · next found =>
    cases known
    exact isPlain.isPlain_expanded found braceless
  · split at known
    · contradiction
    · cases known
      exact ⟨by simp, by simpa using braceless⟩

end Bindings

namespace Reader

variable {reader after : Reader} {site name label value : List Char}

theorem stop_ne_ok {α : Type} (reader : Reader) (fault : Fault) (site : List Char) (isFinal : Bool)
    (value : α) :
    reader.stop fault site isFinal ≠ .ok value := by
  unfold stop
  split <;> simp

/-- Different names of attributes are also different when they are expanded. -/
theorem expandedAttributes_sound
    {bindings : Bindings}
    {entries : List (List Char × List Char)}
    {seen : List ExpandedName}
    {own : List (ExpandedName × String)}
    (isPlain : bindings.IsPlain)
    (written : ∀ name ∈ entries.map (·.1), IsWritten name)
    (distinct : (entries.map (·.1)).Nodup)
    (expanded : expandedAttributes bindings entries seen = .ok own) :
    (own.map (·.1)).Nodup ∧
      ∀ pair ∈ own, (pair.1.space?.isSome → pair.1 ∉ seen) ∧
        ∃ name ∈ entries.map (·.1), bindings.attributeName name = .ok pair.1 := by
  induction entries generalizing seen own with
  | nil =>
    cases expanded
    simp
  | cons entry rest ih =>
    obtain ⟨name, value⟩ := entry
    obtain ⟨writtenHere, writtenThere⟩ := List.forall_mem_cons.mp written
    obtain ⟨fresh, distinct⟩ := List.nodup_cons.mp distinct
    obtain ⟨first, named, expanded⟩ := bind_eq_ok_iff.mp expanded
    dsimp only at expanded
    split at expanded
    · contradiction
    · next unseen =>
      obtain ⟨others, later, same⟩ := bind_eq_ok_iff.mp expanded
      cases same
      obtain ⟨distinctLater, known⟩ := ih writtenThere distinct later
      refine ⟨List.nodup_cons.mpr ⟨?_, distinctLater⟩, List.forall_mem_cons.mpr
        ⟨⟨fun inSpace held => unseen (by simp [inSpace, held]), name, by simp, named⟩, ?_⟩⟩
      · intro repeated
        obtain ⟨pair, held, same⟩ := List.mem_map.mp repeated
        obtain ⟨unseenToo, other, heldToo, namedToo⟩ := known pair held
        rw [same] at unseenToo namedToo
        -- in a namespace it is the reader that tells them apart, and in none it is their names
        cases space_eq : first.space? with
        | some space => exact unseenToo (by simp [space_eq]) List.mem_cons_self
        | none =>
          obtain ⟨-, name_eq⟩ := (bindings.attributeName_cases isPlain writtenHere named).2 space_eq
          obtain ⟨-, other_eq⟩ :=
            (bindings.attributeName_cases isPlain (writtenThere _ heldToo) namedToo).2 space_eq
          cases String.ofList_injective (name_eq.symm.trans other_eq)
          exact fresh heldToo
      · intro pair held
        obtain ⟨unseenToo, other, heldToo, namedToo⟩ := known pair held
        exact ⟨fun inSpace => unseenToo inSpace ∘ List.mem_cons_of_mem _, other,
          List.mem_cons_of_mem _ heldToo, namedToo⟩

/-- The names of attributes, in order, of which those that declare a prefix are recorded at once. -/
structure Takes
    (before after : Reader)
    (names : List (List Char))
    (others : List (List Char × List Char)) : Prop where
  dtd_eq : after.dtd = before.dtd
  tags_eq : after.tags = before.tags
  isPlain : before.bindings.IsPlain → after.bindings.IsPlain
  others_eq : others.map (·.1) = names.filter fun name => (declaredPrefix? name).isNone
  exists_declared : ∃ declared : List (String × String),
    declared.map (·.1) = (names.filterMap declaredPrefix?).map String.ofList ∧
      after.events.reverse =
        before.events.reverse ++ declared.map fun pair => .declaration pair.1 pair.2

namespace Takes

theorem nil (reader : Reader) : reader.Takes reader [] [] :=
  ⟨rfl, rfl, id, rfl, [], rfl, by simp⟩

theorem append
    {before between after : Reader}
    {names laterNames : List (List Char)}
    {others laterOthers : List (List Char × List Char)}
    (first : before.Takes between names others)
    (later : between.Takes after laterNames laterOthers) :
    before.Takes after (names ++ laterNames) (others ++ laterOthers) := by
  obtain ⟨declared, labels_eq, events_eq⟩ := first.exists_declared
  obtain ⟨laterDeclared, laterLabels_eq, laterEvents_eq⟩ := later.exists_declared
  refine ⟨later.dtd_eq.trans first.dtd_eq, later.tags_eq.trans first.tags_eq,
    later.isPlain ∘ first.isPlain, ?_, declared ++ laterDeclared, ?_, ?_⟩
  · rw [List.map_append, first.others_eq, later.others_eq, List.filter_append]
  · rw [List.map_append, labels_eq, laterLabels_eq, List.filterMap_append, List.map_append]
  · rw [laterEvents_eq, events_eq, List.append_assoc, List.map_append]

theorem other (undeclared : declaredPrefix? name = none) (reader : Reader) (value : List Char) :
    reader.Takes reader [name] [(name, value)] :=
  ⟨rfl, rfl, id, by simp [undeclared], [], by simp [undeclared], by simp⟩

theorem declaration
    (declares : declaredPrefix? name = some label)
    (declared : reader.declare site label value = .ok after) :
    reader.Takes after [name] [] := by
  unfold declare at declared
  split at declared
  · exact absurd declared (stop_ne_ok _ _ _ _ _)
  · next bound =>
    cases declared
    exact ⟨rfl, rfl, fun isPlain => isPlain.of_bind bound, by simp [declares],
      [(String.ofList label, String.ofList value)], by simp [declares], by simp [emit]⟩

theorem of_allowance
    {allowance : Nat}
    {names : List (List Char)}
    {others : List (List Char × List Char)}
    (takes : { reader with allowance := allowance }.Takes after names others) :
    reader.Takes after names others :=
  ⟨takes.dtd_eq, takes.tags_eq, takes.isPlain, takes.others_eq, takes.exists_declared⟩

end Takes

/-- A tag spells each name once. -/
theorem takes_of_spelledAttributes
    {element : List Char}
    {attributes : List RawAttribute}
    {seen : List (List Char)}
    {others : List (List Char × List Char)}
    (spelled : spelledAttributes site element attributes seen reader = .ok (after, others)) :
    reader.Takes after (attributes.map (·.name)) others ∧
      (attributes.map (·.name)).Nodup ∧ ∀ name ∈ attributes.map (·.name), name ∉ seen := by
  induction attributes generalizing seen reader others with
  | nil =>
    cases spelled
    exact ⟨.nil _, List.nodup_nil, by simp⟩
  | cons raw rest ih =>
    simp only [spelledAttributes] at spelled
    split at spelled
    · exact absurd spelled (stop_ne_ok _ _ _ _ _)
    · next fresh =>
      -- what follows does not depend on whether the name declares a prefix
      have extend : ∀ {between : Reader} {found laterOthers : List (List Char × List Char)},
          spelledAttributes site element rest (raw.name :: seen) between =
            .ok (after, laterOthers) →
          reader.Takes between [raw.name] found →
          reader.Takes after ((raw :: rest).map (·.name)) (found ++ laterOthers) ∧
            ((raw :: rest).map (·.name)).Nodup ∧
              ∀ name ∈ (raw :: rest).map (·.name), name ∉ seen := by
        intro between found laterOthers later takes
        obtain ⟨takesLater, distinct, unseen⟩ := ih later
        refine ⟨takes.append takesLater, List.nodup_cons.mpr ⟨?_, distinct⟩,
          List.forall_mem_cons.mpr ⟨by simpa using fresh, fun name held => ?_⟩⟩
        · exact fun repeated => unseen _ repeated List.mem_cons_self
        · exact fun heldToo => unseen name held (List.mem_cons_of_mem _ heldToo)
      split at spelled
      · exact absurd spelled (stop_ne_ok _ _ _ _ _)
      · next allowance _ =>
        split at spelled
        · next declares =>
          obtain ⟨between, declared, later⟩ := bind_eq_ok_iff.mp spelled
          exact extend later (Takes.declaration declares declared).of_allowance
        · next undeclared =>
          obtain ⟨⟨between, found⟩, later, same⟩ := bind_eq_ok_iff.mp spelled
          cases same
          exact extend later (Takes.other undeclared _ _).of_allowance

/-- The declared attributes of an element that have values, less those that a tag spells. -/
def defaultedNames
    (spelled : List (List Char))
    (declarations : List AttributeDeclaration) :
    List (List Char) :=
  (declarations.filter fun declared =>
    declared.value?.isSome && !spelled.contains declared.name).map (·.name)

theorem takes_of_defaultedAttributes
    {spelled : List (List Char)}
    {declarations : List AttributeDeclaration}
    {others : List (List Char × List Char)}
    (defaulted : defaultedAttributes site spelled declarations reader = .ok (after, others)) :
    reader.Takes after (defaultedNames spelled declarations) others := by
  induction declarations generalizing reader others with
  | nil =>
    cases defaulted
    exact .nil _
  | cons declaration rest ih =>
    rw [defaultedAttributes] at defaulted
    split at defaulted
    · next valueless =>
      rw [defaultedNames, List.filter_cons_of_neg (by simp [valueless])]
      exact ih defaulted
    · next value valued =>
      split at defaulted
      · next repeated =>
        rw [defaultedNames, List.filter_cons_of_neg (by simpa using fun _ => repeated)]
        exact ih defaulted
      · next fresh =>
        rw [defaultedNames, List.filter_cons_of_pos (by simpa [valued] using fresh)]
        split at defaulted
        · next declares =>
          obtain ⟨between, declared, later⟩ := bind_eq_ok_iff.mp defaulted
          exact (Takes.declaration declares declared).append (ih later)
        · next undeclared =>
          obtain ⟨⟨between, found⟩, later, same⟩ := bind_eq_ok_iff.mp defaulted
          cases same
          exact (Takes.other undeclared _ _).append (ih later)

theorem nodup_defaultedNames
    {dtd : Dtd}
    (isSound : dtd.IsSound)
    (spelled : List (List Char))
    (element : List Char) :
    (defaultedNames spelled (dtd.attributesOf element)).Nodup := by
  have valued : ((dtd.attributesOf element).filter fun declared =>
      declared.value?.isSome && !spelled.contains declared.name).Sublist
        (dtd.attributes.filter (·.value?.isSome)) := by
    rw [Dtd.attributesOf, List.filter_filter]
    refine List.monotone_filter_right _ fun declared => ?_
    simp only [Bool.and_eq_true, and_imp]
    exact fun some _ _ => some
  rw [defaultedNames, List.Nodup, List.pairwise_map]
  refine (isSound.distinct.sublist valued).imp_of_mem fun held heldToo different => ?_
  simp only [List.mem_filter, Dtd.attributesOf, beq_iff_eq] at held heldToo
  exact different (held.1.2.trans heldToo.1.2.symm)

/-- The names in a start tag and those of the defaults of its element are different written names. -/
theorem names_sound
    {dtd : Dtd}
    (isSound : dtd.IsSound)
    (element : List Char)
    {spelled : List (List Char)}
    (distinct : spelled.Nodup)
    (areWritten : ∀ name ∈ spelled, IsWritten name) :
    (spelled ++ defaultedNames spelled (dtd.attributesOf element)).Nodup ∧
      ∀ name ∈ spelled ++ defaultedNames spelled (dtd.attributesOf element), IsWritten name := by
  refine ⟨distinct.append (nodup_defaultedNames isSound spelled element) ?_,
    List.forall_mem_append.mpr ⟨areWritten, ?_⟩⟩
  · intro name held heldToo
    obtain ⟨declared, kept, rfl⟩ := List.mem_map.mp heldToo
    simp [held] at kept
  · intro name held
    obtain ⟨declared, kept, rfl⟩ := List.mem_map.mp held
    exact isSound.written declared (List.mem_filter.mp (List.mem_filter.mp kept).1).1

theorem nodup_declaredPrefixes
    {names : List (List Char)}
    (distinct : names.Nodup)
    (areWritten : ∀ name ∈ names, IsWritten name) :
    ((names.filterMap declaredPrefix?).map String.ofList).Nodup := by
  have different : names.Pairwise fun name other => ∀ label,
      declaredPrefix? name = some label → declaredPrefix? other ≠ some label := by
    refine distinct.imp_of_mem fun held heldToo different label declares declaresToo => ?_
    exact different
      ((areWritten _ held).declaredPrefix?_inj (areWritten _ heldToo) declares declaresToo)
  refine List.Nodup.map (fun _ _ => String.ofList_injective) (different.filterMap _ ?_)
  rintro name other different label declares _ declaresToo rfl
  exact different label declares declaresToo

/-- The names make a start tag: its declarations are recorded, and its attributes are the others. -/
theorem Takes.exists_tag
    {names : List (List Char)}
    {others : List (List Char × List Char)}
    {elementName : ExpandedName}
    {own : List (ExpandedName × String)}
    (takes : reader.Takes after names others)
    (isPlain : reader.bindings.IsPlain)
    (distinct : names.Nodup)
    (areWritten : ∀ name ∈ names, IsWritten name)
    (written : IsWritten name)
    (expanded : expandedAttributes after.bindings others [] = .ok own)
    (named : after.bindings.elementName name = .ok elementName) :
    ∃ tag : StartTag, tag.name = elementName ∧ tag.own = own ∧
      after.events.reverse =
        reader.events.reverse ++ tag.declared.map fun pair => .declaration pair.1 pair.2 := by
  have isPlain := takes.isPlain isPlain
  have otherNames : ∀ other ∈ others.map (·.1), IsWritten other ∧ declaredPrefix? other = none := by
    intro other held
    rw [takes.others_eq, List.mem_filter, Option.isNone_iff_eq_none] at held
    exact ⟨areWritten other held.1, held.2⟩
  have othersDistinct : (others.map (·.1)).Nodup := by
    rw [takes.others_eq]
    exact distinct.filter _
  obtain ⟨own_nodup, known⟩ := expandedAttributes_sound isPlain
    (fun other held => (otherNames other held).1) othersDistinct expanded
  have own_sound : ∀ pair ∈ own, pair.1.IsPlain ∧ (pair.1.space? = none →
      pair.1.localName ≠ "xmlns" ∧ ':' ∉ pair.1.localName.toList) := by
    intro pair held
    obtain ⟨-, other, heldToo, named⟩ := known pair held
    obtain ⟨written, undeclared⟩ := otherNames other heldToo
    exact Bindings.attributeName_sound isPlain written undeclared named
  obtain ⟨declared, labels_eq, events_eq⟩ := takes.exists_declared
  have declared_nodup : (declared.map (·.1)).Nodup := by
    rw [labels_eq]
    exact nodup_declaredPrefixes distinct areWritten
  exact ⟨⟨declared, elementName, own, Bindings.isPlain_of_elementName isPlain written named,
    fun pair held => (own_sound pair held).1, declared_nodup, own_nodup,
    fun pair held => (own_sound pair held).2⟩, rfl, rfl, events_eq⟩

/-- Reading a start tag records its declarations and then the tag. -/
theorem exists_tag_of_startTag
    {attributes : List RawAttribute}
    (isSound : reader.dtd.IsSound)
    (isPlain : reader.bindings.IsPlain)
    (written : IsWritten name)
    (areWritten : ∀ raw ∈ attributes, IsWritten raw.name)
    (opened : reader.startTag site name attributes = .ok after) :
    ∃ tag : StartTag, after.events.reverse = reader.events.reverse ++ tag.events ∧
      after.tags = ⟨name, reader.bindings⟩ :: reader.tags ∧ after.dtd = reader.dtd ∧
        after.bindings.IsPlain := by
  obtain ⟨⟨between, spelled⟩, spelling, opened⟩ := bind_eq_ok_iff.mp opened
  obtain ⟨⟨last, defaulted⟩, defaulting, opened⟩ := bind_eq_ok_iff.mp opened
  obtain ⟨takesSpelled, distinct, -⟩ := takes_of_spelledAttributes spelling
  have takes := takesSpelled.append (takes_of_defaultedAttributes defaulting)
  rw [takesSpelled.dtd_eq] at takes
  obtain ⟨distinct, areWritten⟩ := names_sound isSound name distinct (by simpa using areWritten)
  dsimp only at opened
  split at opened
  · exact absurd opened (stop_ne_ok _ _ _ _ _)
  · next own expanded =>
    split at opened
    · exact absurd opened (stop_ne_ok _ _ _ _ _)
    · next elementName named =>
      cases opened
      obtain ⟨tag, rfl, rfl, events_eq⟩ :=
        takes.exists_tag isPlain distinct areWritten written expanded named
      exact ⟨tag, by simp [emit, events_eq, StartTag.events], by simp [takes.tags_eq],
        takes.dtd_eq, takes.isPlain isPlain⟩

end Reader
end Xml
end MarkupLint
