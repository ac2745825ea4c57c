import MarkupLint.Proofs.Traversal
import MarkupLint.Proofs.Xml.Scan
import MarkupLint.Xml.Reader

/-!
# What stands before the root element

Reading declarations takes characters off the front of the text and never puts any back.  So there
are enough rounds to read everything before the root element, and what is left begins with its start
tag.  The attributes that are declared have written names, and no two of them with values have the same
name and element.
-/

namespace MarkupLint
namespace Xml

/-- The declared attributes have written names, which are different for those of an element that have
values. -/
structure Dtd.IsSound (dtd : Dtd) : Prop where
  written : ∀ declared ∈ dtd.attributes, IsWritten declared.name
  distinct : (dtd.attributes.filter (·.value?.isSome)).Pairwise fun first second =>
    first.element = second.element → first.name ≠ second.name

theorem Dtd.IsSound.declareAttribute
    {dtd : Dtd}
    (isSound : dtd.IsSound)
    {declaration : AttributeDeclaration}
    (written : IsWritten declaration.name)
    (isIdentifier : Bool) :
    (dtd.declareAttribute declaration isIdentifier).IsSound := by
  unfold Dtd.declareAttribute
  split
  · exact isSound
  · next fresh =>
    refine ⟨?_, ?_⟩
    · exact List.forall_mem_append.mpr ⟨isSound.written, by simpa using written⟩
    · rw [List.filter_append, List.pairwise_append]
      refine ⟨isSound.distinct, List.Pairwise.filter _ (List.pairwise_singleton _ _), ?_⟩
      intro first held second heldToo same
      obtain ⟨isLast, valued⟩ := List.mem_filter.mp heldToo
      cases List.mem_singleton.mp isLast
      rw [valued, Bool.true_or, Bool.true_and, Dtd.declares, List.any_eq_true] at fresh
      intro sameName
      exact fresh ⟨first, (List.mem_filter.mp held).1, by simp [same, sameName]⟩

theorem Dtd.IsSound.declareEntity
    {dtd : Dtd}
    (isSound : dtd.IsSound)
    (name : List Char)
    (entity : Entity) :
    (dtd.declareEntity name entity).IsSound := by
  unfold Dtd.declareEntity
  split
  · exact isSound
  · exact ⟨isSound.written, isSound.distinct⟩

namespace Declaring

/-- What is read is of some kind, what is left of the text is an end of it, and the declarations
stay sound. -/
def Reads (action : Declaring α) (Is : α → Prop) : Prop :=
  ∀ ⦃before : Prolog⦄ ⦃value : α⦄ ⦃after : Prolog⦄,
    action.run before = .ok (value, after) →
      Is value ∧ after.text <:+ before.text ∧ (before.dtd.IsSound → after.dtd.IsSound)

/-- What is left of the text is an end of it, and the declarations stay sound. -/
abbrev Consumes (action : Declaring α) : Prop := Reads action fun _ => True

variable {Is : α → Prop} {IsToo : β → Prop}

theorem reads_pure {value : α} (is : Is value) : Reads (pure value) Is := by
  rintro before _ _ ⟨⟩
  exact ⟨is, List.suffix_rfl, id⟩

theorem consumes_pure (value : α) : Consumes (pure value) := reads_pure trivial

theorem Reads.imp
    {action : Declaring α}
    {IsAlso : α → Prop}
    (reads : Reads action Is)
    (implies : ∀ value, Is value → IsAlso value) :
    Reads action IsAlso := by
  intro before value after ran
  obtain ⟨is, kept⟩ := reads ran
  exact ⟨implies value is, kept⟩

theorem reads_throw (failure : Failure) : Reads (throw failure : Declaring α) Is := by
  rintro _ _ _ ⟨⟩

theorem consumes_get : Consumes get := by
  rintro before _ _ ⟨⟩
  exact ⟨trivial, List.suffix_rfl, id⟩

theorem Reads.bind
    {first : Declaring α}
    {second : α → Declaring β}
    (reads : Reads first Is)
    (readsNext : ∀ value, Is value → Reads (second value) IsToo) :
    Reads (first >>= second) IsToo := by
  intro before value after ran
  rw [StateT.run_bind] at ran
  obtain ⟨⟨found, between⟩, started, ran⟩ := bind_eq_ok_iff.mp ran
  obtain ⟨isFound, isEnd, sound⟩ := reads started
  obtain ⟨is, isEndToo, soundToo⟩ := readsNext found isFound ran
  exact ⟨is, isEndToo.trans isEnd, soundToo ∘ sound⟩

theorem Consumes.bind
    {first : Declaring α}
    {second : α → Declaring β}
    (consumes : Consumes first)
    (readsNext : ∀ value, Reads (second value) IsToo) :
    Reads (first >>= second) IsToo :=
  Reads.bind consumes fun value _ => readsNext value

theorem consumes_modify
    {change : Prolog → Prolog}
    (kept : ∀ prolog, (change prolog).text = prolog.text)
    (sound : ∀ prolog : Prolog, prolog.dtd.IsSound → (change prolog).dtd.IsSound) :
    Consumes (modify change) := by
  rintro before _ _ ⟨⟩
  exact ⟨trivial, kept before ▸ List.suffix_rfl, sound before⟩

theorem Consumes.discard {action : Declaring α} (consumes : Consumes action) :
    Consumes (discard action) :=
  consumes.bind fun _ => consumes_pure ()

theorem reads_fail (fault : Fault) (text : List Char) : Reads (fail fault text : Declaring α) Is :=
  consumes_get.bind fun _ => reads_throw _

theorem reads_unexpected (found : PrologToken × List Char) :
    Reads (unexpected found : Declaring α) Is := by
  unfold unexpected
  split <;> exact reads_fail _ _

theorem consumes_unexpected (found : PrologToken × List Char) :
    Consumes (unexpected found : Declaring α) :=
  reads_unexpected found

theorem unexpected_run_ne_ok
    (found : PrologToken × List Char)
    (before : Prolog)
    (result : α × Prolog) :
    (unexpected found).run before ≠ .ok result := by
  unfold unexpected
  intro ran
  split at ran <;> cases ran

theorem reads_failInLiteral (literal text : List Char) (cause : ValueFault) :
    Reads (failInLiteral literal text cause : Declaring α) Is := by
  unfold failInLiteral
  split <;> exact reads_fail _ _

/-- The next token takes at least one character, unless it is the start tag of the root element. -/
theorem next_cases
    {before after : Prolog}
    {found : PrologToken × List Char}
    (ran : next.run before = .ok (found, after)) :
    after.dtd = before.dtd ∧
      ((found.1.IsPart ∧ after.text <:+ before.text ∧ after.text.length < before.text.length) ∨
        (found.1 = .element ∧ found.2 <:+ before.text ∧ after.text = found.2 ∧
          BeginsElement found.2)) := by
  have isEnd := skipBlanks_suffix before.text
  have finds := finds_scanProlog (skipBlanks before.text)
  rw [next, StateT.run_bind, StateT.run_get, pure_bind] at ran
  dsimp only at ran
  generalize skipBlanks before.text = text at ran isEnd finds
  cases text with
  | nil => cases ran
  | cons char text =>
    rcases finds with finds | ⟨scanned, begins⟩
    · cases scanned : scanProlog (char :: text) with
      | token value rest =>
        rw [scanned] at ran finds
        cases ran
        have less := Nat.lt_succ_of_le finds.2.length_le
        exact ⟨rfl, .inl ⟨finds.1, (finds.2.trans (List.suffix_cons char text)).trans isEnd,
          less.trans_le isEnd.length_le⟩⟩
      | last value =>
        rw [scanned] at ran finds
        cases ran
        exact ⟨rfl, .inl ⟨finds, List.nil_suffix, (Nat.succ_pos _).trans_le isEnd.length_le⟩⟩
      | _ =>
        rw [scanned] at ran
        cases ran
    · rw [scanned] at ran
      cases ran
      exact ⟨rfl, .inr ⟨rfl, isEnd, rfl, begins⟩⟩

theorem reads_next : Reads next fun found => found.1.IsPart ∨ found.1 = .element := by
  intro before found after ran
  obtain ⟨dtd_eq, ⟨isPart, isEnd, -⟩ | ⟨isElement, isEnd, same, -⟩⟩ := next_cases ran
  · exact ⟨.inl isPart, isEnd, dtd_eq ▸ id⟩
  · exact ⟨.inr isElement, same ▸ isEnd, dtd_eq ▸ id⟩

theorem consumes_next : Consumes next := reads_next.imp fun _ _ => trivial

/-! ## Parts of declarations -/

theorem consumes_close : Consumes close := by
  refine consumes_next.bind fun found => ?_
  split
  · exact consumes_pure _
  · exact reads_unexpected _

theorem consumes_literal : Consumes literal := by
  refine consumes_next.bind fun found => ?_
  split
  · exact consumes_pure _
  · exact reads_unexpected _

theorem consumes_publicLiteral : Consumes publicLiteral := by
  refine consumes_literal.bind fun found => ?_
  dsimp only
  split
  · exact consumes_pure _
  · exact reads_fail _ _

theorem consumes_plainName : Consumes plainName := by
  refine consumes_next.bind fun found => ?_
  split
  · exact consumes_pure _
  · exact reads_unexpected _

theorem reads_anyName : Reads anyName IsWritten := by
  refine reads_next.bind fun found isPart => ?_
  split
  · exact reads_pure (isPart.resolve_right (by simp))
  · exact reads_pure (isPart.resolve_right (by simp))
  · exact reads_unexpected _

theorem consumes_anyName : Consumes anyName := reads_anyName.imp fun _ _ => trivial

theorem consumes_externalIdentifier (found : PrologToken × List Char) :
    Consumes (externalIdentifier found) := by
  unfold externalIdentifier
  split
  · split
    · exact consumes_literal.discard
    · split
      · exact consumes_publicLiteral.bind fun _ => consumes_literal.discard
      · exact reads_unexpected _
  · exact reads_unexpected _

theorem consumes_declare {change : Dtd → Dtd} (sound : ∀ dtd, dtd.IsSound → (change dtd).IsSound) :
    Consumes (declare change) := by
  refine consumes_modify (fun prolog => ?_) fun prolog isSound => ?_
  · split <;> rfl
  · split
    · exact sound _ isSound
    · exact isSound

/-! ## Entities and notations -/

theorem consumes_replacementText (body text : List Char) : Consumes (replacementText body text) := by
  refine consumes_get.bind fun prolog => ?_
  split
  · split
    · exact consumes_pure _
    · exact reads_failInLiteral _ _ _
  · exact consumes_pure _

theorem consumes_parameterEntity : Consumes parameterEntity := by
  refine consumes_plainName.discard.bind fun _ => consumes_next.bind fun found => ?_
  split
  · exact (consumes_replacementText _ _).discard.bind fun _ => consumes_close
  · exact (consumes_externalIdentifier _).bind fun _ => consumes_close

theorem consumes_generalEntity (name : List Char) : Consumes (generalEntity name) := by
  have declares : ∀ entity : Entity, Consumes (declare fun dtd =>
      if (predefinedEntity? name).isSome then dtd else dtd.declareEntity name entity) := by
    refine fun entity => consumes_declare fun dtd isSound => ?_
    split
    · exact isSound
    · exact isSound.declareEntity name entity
  refine consumes_next.bind fun found => ?_
  split
  · exact (consumes_replacementText _ _).bind fun value =>
      (declares _).bind fun _ => consumes_close
  · refine (consumes_externalIdentifier _).bind fun _ => consumes_next.bind fun found => ?_
    split
    · exact declares _
    · split
      · exact consumes_plainName.discard.bind fun _ =>
          (declares _).bind fun _ => consumes_close
      · exact reads_unexpected _
    · exact reads_unexpected _

theorem consumes_entity : Consumes entity := by
  refine consumes_next.bind fun found => ?_
  split
  · exact consumes_parameterEntity
  · exact consumes_generalEntity _
  · exact reads_unexpected _

theorem consumes_notationDeclaration : Consumes notationDeclaration := by
  refine consumes_plainName.discard.bind fun _ => consumes_next.bind fun found => ?_
  split
  · split
    · exact consumes_literal.discard.bind fun _ => consumes_close
    · split
      · refine consumes_publicLiteral.bind fun _ => consumes_next.bind fun found => ?_
        split
        · exact consumes_pure _
        · exact consumes_close
        · exact reads_unexpected _
      · exact reads_unexpected _
  · exact reads_unexpected _

/-! ## Attribute lists -/

theorem consumes_enumeration {word : Declaring Unit} (consumes : Consumes word) (rounds : Nat) :
    Consumes (enumeration word rounds) := by
  induction rounds with
  | zero => exact consumes_pure _
  | succ rounds ih =>
    refine consumes.bind fun _ => consumes_next.bind fun found => ?_
    split
    · exact consumes_pure _
    · exact ih
    · exact reads_unexpected _

theorem consumes_enumeratedWord : Consumes enumeratedWord := by
  refine consumes_next.bind fun found => ?_
  split
  · exact consumes_pure _
  · exact consumes_pure _
  · exact consumes_pure _
  · exact reads_unexpected _

theorem consumes_attributeType : Consumes attributeType := by
  refine consumes_next.bind fun found => ?_
  split
  · exact consumes_get.bind fun _ =>
      (consumes_enumeration consumes_enumeratedWord _).bind fun _ => consumes_pure _
  · split
    · exact consumes_pure _
    · exact consumes_pure _
    · exact consumes_pure _
    · exact consumes_pure _
    · exact consumes_pure _
    · exact consumes_pure _
    · exact consumes_pure _
    · exact consumes_pure _
    · refine consumes_next.bind fun found => ?_
      split
      · exact consumes_get.bind fun _ =>
          (consumes_enumeration consumes_plainName.discard _).bind fun _ => consumes_pure _
      · exact reads_unexpected _
    · exact reads_unexpected _
  · exact reads_unexpected _

theorem consumes_defaultValue (isText : Bool) (body text : List Char) :
    Consumes (defaultValue isText body text) := by
  refine consumes_get.bind fun prolog => ?_
  dsimp only
  split
  · split
    · exact consumes_pure _
    · exact reads_failInLiteral _ _ _
  · exact consumes_pure _

theorem consumes_attributeDefault
    {name : List Char}
    (written : IsWritten name)
    (element : List Char)
    (isText isIdentifier : Bool) :
    Consumes (attributeDefault element name isText isIdentifier) := by
  have declares : ∀ body text, Consumes (do
      let value ← defaultValue isText body text
      declare fun dtd => dtd.declareAttribute ⟨element, name, isText, some value⟩ false) :=
    fun body text => (consumes_defaultValue _ _ _).bind fun _ =>
      consumes_declare fun _ isSound => isSound.declareAttribute written _
  refine consumes_next.bind fun found => ?_
  split
  · exact declares _ _
  · split
    · exact consumes_declare fun _ isSound => isSound.declareAttribute written _
    · split
      · exact consumes_literal.bind fun found => declares _ _
      · exact reads_unexpected _
  · exact reads_unexpected _

theorem consumes_attributeList (element : List Char) (rounds : Nat) :
    Consumes (attributeList element rounds) := by
  induction rounds with
  | zero => exact consumes_pure _
  | succ rounds ih =>
    have declares : ∀ {name}, IsWritten name → Consumes (attributeType >>= fun found =>
        attributeDefault element name found.1 found.2) :=
      fun written => consumes_attributeType.bind fun _ => consumes_attributeDefault written _ _ _
    refine reads_next.bind fun found isPart => ?_
    split
    · exact consumes_pure _
    · exact (declares (isPart.resolve_right (by simp))).bind fun _ => ih
    · exact (declares (isPart.resolve_right (by simp))).bind fun _ => ih
    · exact reads_unexpected _

/-! ## Content models -/

theorem consumes_contentModel
    (separators : List (Option Char))
    (isItemDue : Bool)
    (rounds : Nat) :
    Consumes (contentModel separators isItemDue rounds) := by
  induction rounds generalizing separators isItemDue with
  | zero => exact consumes_pure _
  | succ rounds ih =>
    refine consumes_next.bind fun found => ?_
    dsimp only
    split
    · split
      · exact ih _ _
      · exact ih _ _
      · exact ih _ _
      · exact ih _ _
      · exact reads_unexpected _
    · split
      case h_1 | h_2 =>
        split
        · exact reads_unexpected _
        · split
          · exact ih _ _
          · exact reads_fail _ _
        · exact ih _ _
      · split
        · exact consumes_pure _
        · exact ih _ _
      · exact reads_unexpected _

theorem consumes_mixedContent (rounds : Nat) : Consumes (mixedContent rounds) := by
  induction rounds with
  | zero => exact consumes_pure _
  | succ rounds ih =>
    refine consumes_anyName.discard.bind fun _ => consumes_next.bind fun found => ?_
    split
    · exact consumes_pure _
    · exact ih
    · exact reads_unexpected _

theorem consumes_contentGroup : Consumes contentGroup := by
  refine consumes_get.bind fun prolog => ?_
  dsimp only
  refine consumes_next.bind fun found => ?_
  split
  · split
    · refine consumes_next.bind fun found => ?_
      split
      · exact consumes_pure _
      · exact consumes_pure _
      · exact consumes_mixedContent _
      · exact reads_unexpected _
    · exact reads_unexpected _
  · exact consumes_contentModel _ _ _
  · exact consumes_contentModel _ _ _
  · exact consumes_contentModel _ _ _
  · exact consumes_contentModel _ _ _
  · exact reads_unexpected _

theorem consumes_element : Consumes element := by
  refine consumes_anyName.discard.bind fun _ => consumes_next.bind fun found => ?_
  dsimp only
  split
  · exact consumes_contentGroup.bind fun _ => consumes_close
  · split
    · exact (consumes_unexpected _).bind fun _ => consumes_close
    · exact consumes_close
  · exact (consumes_unexpected _).bind fun _ => consumes_close

/-! ## The document type -/

theorem consumes_subset (rounds : Nat) : Consumes (subset rounds) := by
  induction rounds with
  | zero => exact consumes_pure _
  | succ rounds ih =>
    refine consumes_next.bind fun found => ?_
    split
    · exact consumes_pure _
    · exact ih
    · refine Consumes.bind (consumes_modify (fun _ => rfl) fun _ isSound => ?_) fun _ => ih
      exact ⟨isSound.written, isSound.distinct⟩
    · dsimp only
      split
      · exact consumes_entity.bind fun _ => ih
      · exact consumes_anyName.bind fun _ => consumes_get.bind fun _ =>
          (consumes_attributeList _ _).bind fun _ => ih
      · exact consumes_element.bind fun _ => ih
      · exact consumes_notationDeclaration.bind fun _ => ih
      · exact (consumes_unexpected _).bind fun _ => ih
    · exact reads_unexpected _

theorem consumes_subsetAndClose : Consumes subsetAndClose :=
  consumes_get.bind fun _ => (consumes_subset _).bind fun _ => consumes_close

theorem consumes_doctype : Consumes doctype := by
  refine consumes_anyName.discard.bind fun _ => consumes_next.bind fun found => ?_
  split
  · exact consumes_subsetAndClose
  · exact consumes_pure _
  · refine (consumes_externalIdentifier _).bind fun _ =>
      Consumes.bind (consumes_modify (fun _ => rfl) fun _ isSound => ?_) fun _ =>
        consumes_next.bind fun found => ?_
    · exact ⟨isSound.written, isSound.distinct⟩
    · split
      · exact consumes_subsetAndClose
      · exact consumes_pure _
      · exact reads_unexpected _

end Declaring

open Declaring

/-! ## Everything before the root element -/

/-- With a round for each character and one more, the items end before the root element.  The
declarations stay sound. -/
theorem beginsElement_of_prologItems
    {isTyped : Bool}
    {rounds : Nat}
    {before after : Prolog}
    (enough : before.text.length < rounds)
    (ran : (prologItems isTyped rounds).run before = .ok ((), after)) :
    BeginsElement after.text ∧ (before.dtd.IsSound → after.dtd.IsSound) := by
  induction rounds generalizing isTyped before with
  | zero => contradiction
  | succ rounds ih =>
    rw [prologItems, StateT.run_bind] at ran
    obtain ⟨⟨found, between⟩, started, ran⟩ := bind_eq_ok_iff.mp ran
    obtain ⟨dtd_eq, progress⟩ := next_cases started
    -- each item but the start tag uses up a round and takes at least one character
    have shorter : found.1 ≠ .element → between.text.length < rounds := by
      intro other
      rcases progress with ⟨-, -, less⟩ | ⟨same, -⟩
      · omega
      · exact absurd same other
    rw [← dtd_eq]
    dsimp only at ran
    split at ran
    · next isRemark => exact ih (shorter (by simp [isRemark])) ran
    · next isElement =>
      cases ran
      rcases progress with ⟨isPart, -⟩ | ⟨-, -, -, begins⟩
      · rw [isElement] at isPart
        contradiction
      · exact ⟨begins, id⟩
    · next keyword isOpening =>
      split at ran
      · rw [StateT.run_bind] at ran
        obtain ⟨⟨_, behind⟩, typed, ran⟩ := bind_eq_ok_iff.mp ran
        obtain ⟨-, isEnd, sound⟩ := consumes_doctype typed
        obtain ⟨begins, soundToo⟩ :=
          ih (isEnd.length_le.trans_lt (shorter (by simp [isOpening]))) ran
        exact ⟨begins, soundToo ∘ sound⟩
      · exact absurd ran (unexpected_run_ne_ok _ _ _)
    · exact absurd ran (unexpected_run_ne_ok _ _ _)

theorem attributes_of_openingDeclaration
    {before after : Prolog}
    (ran : openingDeclaration.run before = .ok ((), after)) :
    after.dtd.attributes = before.dtd.attributes := by
  rw [openingDeclaration, StateT.run_bind, StateT.run_get, pure_bind] at ran
  dsimp only at ran
  split at ran
  · split at ran <;> cases ran
    rfl
  · cases ran
    rfl

/-- What is left behind the prolog begins with the start tag of the root element, and the declarations
stay sound. -/
theorem beginsElement_of_prolog
    {before after : Prolog}
    (ran : prolog.run before = .ok ((), after)) :
    BeginsElement after.text ∧ (before.dtd.IsSound → after.dtd.IsSound) := by
  rw [prolog, StateT.run_bind] at ran
  obtain ⟨⟨_, between⟩, opened, ran⟩ := bind_eq_ok_iff.mp ran
  obtain ⟨begins, sound⟩ := beginsElement_of_prologItems (Nat.lt_succ_self _) ran
  have same := attributes_of_openingDeclaration opened
  exact ⟨begins, fun isSound => sound ⟨same ▸ isSound.written, same ▸ isSound.distinct⟩⟩

end Xml
end MarkupLint
