import MarkupLint.Proofs.Xml.Tag

/-!
# The events of a document

Each step of reading adds content to the innermost open element, or opens an element, or closes the
innermost one.  So the events of a document that is read to its end are those of markup.
-/

namespace MarkupLint
namespace Xml
namespace Reader

variable {reader after : Reader}

/-- What an element that is read next stands in. -/
structure Scope where
  dtd : Dtd
  tags : List OpenTag
  bindings : Bindings

/-- The scope that a reader has reached. -/
def scope (reader : Reader) : Scope := ⟨reader.dtd, reader.tags, reader.bindings⟩

/-- The declarations are sound, and the bindings are plain here and outside each open element. -/
structure Scope.IsSound (scope : Scope) : Prop where
  dtd : scope.dtd.IsSound
  bindings : scope.bindings.IsPlain
  outer : ∀ tag ∈ scope.tags, tag.outer.IsPlain

/-! ## One step -/

/-- A step adds content to the innermost element, opens an element, or closes the innermost one. -/
inductive Progress (before after : Reader) : Prop where
  | content
      (more : Content)
      (scope_eq : after.scope = before.scope)
      (events_eq : after.events.reverse = before.events.reverse ++ more.events) :
      Progress before after
  | start
      (tag : StartTag)
      (depth_eq : after.tags.length = before.tags.length + 1)
      (isSound : after.scope.IsSound)
      (events_eq : after.events.reverse = before.events.reverse ++ tag.events) :
      Progress before after
  | finish
      (depth_eq : before.tags.length = after.tags.length + 1)
      (isSound : after.scope.IsSound)
      (events_eq : after.events.reverse = before.events.reverse ++ [.finish]) :
      Progress before after

theorem Progress.isSound {before : Reader}
    (isSound : before.scope.IsSound)
    (progress : before.Progress after) :
    after.scope.IsSound := by
  cases progress with
  | content more scope_eq => exact scope_eq ▸ isSound
  | start tag _ isSound => exact isSound
  | finish _ isSound => exact isSound

@[simp] theorem events_continueWith (reader : Reader) (rest : List Char) :
    (reader.continueWith rest).events = reader.events := by
  unfold continueWith
  split <;> rfl

@[simp] theorem scope_continueWith (reader : Reader) (rest : List Char) :
    (reader.continueWith rest).scope = reader.scope := by
  unfold continueWith
  split <;> rfl

@[simp] theorem events_resumeWith (reader : Reader) (rest : List Char) :
    (reader.resumeWith rest).events = reader.events := by
  unfold resumeWith
  split <;> simp

@[simp] theorem scope_resumeWith (reader : Reader) (rest : List Char) :
    (reader.resumeWith rest).scope = reader.scope := by
  unfold resumeWith
  split
  · rfl
  · exact scope_continueWith _ _

/-- What neither records anything nor opens or closes an element. -/
theorem Progress.quiet {before after : Reader}
    (scope_eq : after.scope = before.scope)
    (events_eq : after.events = before.events) :
    before.Progress after :=
  .content .nil scope_eq (by simp [events_eq, Content.events])

theorem Progress.of_eq {before between after : Reader}
    (progress : before.Progress between)
    (scope_eq : after.scope = between.scope)
    (events_eq : after.events = between.events) :
    before.Progress after := by
  have tags_eq : after.tags = between.tags := congrArg Scope.tags scope_eq
  cases progress with
  | content more scope events =>
    exact .content more (scope_eq.trans scope) (by rw [events_eq, events])
  | start tag depth isSound events =>
    exact .start tag (by rw [tags_eq, depth]) (scope_eq ▸ isSound) (by rw [events_eq, events])
  | finish depth isSound events =>
    exact .finish (by rw [tags_eq, depth]) (scope_eq ▸ isSound) (by rw [events_eq, events])

theorem progress_emitText {before : Reader}
    (scope_eq : reader.scope = before.scope)
    (events_eq : reader.events = before.events)
    (chars : List Char) :
    before.Progress (reader.emitText chars) := by
  unfold emitText
  split
  · exact .quiet scope_eq events_eq
  · exact .content (.text chars .nil) scope_eq (by simp [emit, events_eq, Content.events])

theorem endOfText_eq_ok {site : List Char} (ended : reader.endOfText site = .ok after) :
    after.scope = reader.scope ∧ after.events = reader.events := by
  unfold endOfText at ended
  split at ended
  · exact absurd ended (stop_ne_ok _ _ _ _ _)
  · split at ended
    · cases ended
      exact ⟨rfl, rfl⟩
    · exact absurd ended (stop_ne_ok _ _ _ _ _)

theorem enterEntity_eq_ok {site name rest : List Char}
    (entered : reader.enterEntity site name rest = .ok after) :
    after.scope = reader.scope ∧ after.events = reader.events := by
  have continued : (reader.continueWith rest).scope = reader.scope ∧
      (reader.continueWith rest).events = reader.events :=
    ⟨scope_continueWith _ _, events_continueWith _ _⟩
  simp only [enterEntity] at entered
  split at entered
  · split at entered
    · exact absurd entered (stop_ne_ok _ _ _ _ _)
    · cases entered
      exact continued
  · split at entered
    · exact absurd entered (stop_ne_ok _ _ _ _ _)
    · split at entered
      · exact absurd entered (stop_ne_ok _ _ _ _ _)
      · cases entered
        exact continued
      · split at entered
        · cases entered
          exact continued
        · split at entered
          · exact absurd entered (stop_ne_ok _ _ _ _ _)
          · cases entered
            exact continued

theorem progress_emitText_endOfText
    {chars site : List Char}
    (ended : (reader.emitText chars).endOfText site = .ok after) :
    reader.Progress after := by
  obtain ⟨scope_eq, events_eq⟩ := endOfText_eq_ok ended
  exact (progress_emitText rfl rfl chars).of_eq scope_eq events_eq

theorem scope_closeElement
    {tag : OpenTag}
    {outer : List OpenTag}
    (tags_eq : reader.tags = tag :: outer) :
    reader.closeElement.scope = ⟨reader.dtd, outer, tag.outer⟩ := by
  rw [closeElement, tags_eq]
  rfl

theorem events_closeElement
    {tag : OpenTag}
    {outer : List OpenTag}
    (tags_eq : reader.tags = tag :: outer) :
    reader.closeElement.events = .finish :: reader.events := by
  rw [closeElement, tags_eq]
  rfl

theorem progress_endTag
    {site name : List Char}
    (isSound : reader.scope.IsSound)
    (ended : reader.endTag site name = .ok after) :
    reader.Progress after := by
  simp only [endTag] at ended
  split at ended
  · exact absurd ended (stop_ne_ok _ _ _ _ _)
  · next tag outer tags_eq =>
    split_ifs at ended
    · exact absurd ended (stop_ne_ok _ _ _ _ _)
    · exact absurd ended (stop_ne_ok _ _ _ _ _)
    · cases ended
      have scope_eq := scope_closeElement tags_eq
      have after_eq : reader.closeElement.tags = outer := congrArg Scope.tags scope_eq
      have areSound := isSound.outer
      rw [scope, tags_eq, List.forall_mem_cons] at areSound
      refine .finish (by rw [tags_eq, after_eq, List.length_cons]) ?_
        (by simp [events_closeElement tags_eq])
      rw [scope_eq]
      exact ⟨isSound.dtd, areSound.1, areSound.2⟩

/-- A start tag opens an element, or adds it if it is closed at once. -/
theorem exists_tag_of_step
    {name : List Char}
    {attributes : List RawAttribute}
    {closed : Bool}
    {rest : List Char}
    (isSound : reader.scope.IsSound)
    (scanned : scanContent reader.current = .token (.startTag name attributes closed) rest)
    (stepped : reader.step = .ok after) :
    ∃ tag : StartTag,
      (after.tags.length = reader.tags.length + 1 ∧ after.scope.IsSound ∧
        after.events.reverse = reader.events.reverse ++ tag.events) ∨
      (after.scope = reader.scope ∧
        after.events.reverse = reader.events.reverse ++ tag.events ++ [.finish]) := by
  have written := yields_scanContent reader.current
  rw [scanned] at written
  simp only [step, scanned] at stepped
  obtain ⟨opened, started, stepped⟩ := bind_eq_ok_iff.mp stepped
  obtain ⟨tag, events_eq, tags_eq, dtd_eq, isPlain⟩ :=
    exists_tag_of_startTag isSound.dtd isSound.bindings written.1 written.2 started
  cases stepped
  have scope_eq : (opened.continueWith rest).scope =
      ⟨reader.dtd, ⟨name, reader.bindings⟩ :: reader.tags, opened.bindings⟩ := by
    rw [scope_continueWith, scope, dtd_eq, tags_eq]
  have tags_eq : (opened.continueWith rest).tags = ⟨name, reader.bindings⟩ :: reader.tags :=
    congrArg Scope.tags scope_eq
  refine ⟨tag, ?_⟩
  cases closed with
  | false =>
    refine .inl ⟨congrArg List.length tags_eq, ?_, by simp [events_eq]⟩
    rw [if_neg Bool.false_ne_true, scope_eq]
    exact ⟨isSound.dtd, isPlain, List.forall_mem_cons.mpr ⟨isSound.bindings, isSound.outer⟩⟩
  | true =>
    have kept : (opened.continueWith rest).dtd = reader.dtd := congrArg Scope.dtd scope_eq
    refine .inr ⟨?_, by simp [events_closeElement tags_eq, events_eq]⟩
    rw [if_pos rfl, scope_closeElement tags_eq, kept]
    rfl

/-- A reference that is replaced adds a character, and one to an entity adds nothing by itself. -/
theorem progress_of_reference
    {reference : Reference}
    {rest : List Char}
    (scanned : scanContent reader.current = .token (.reference reference) rest)
    (stepped : reader.step = .ok after) :
    reader.Progress after := by
  have written : ∀ char, reader.Progress ((reader.continueWith rest).emitText [char]) :=
    fun char => progress_emitText (scope_continueWith _ _) (events_continueWith _ _) _
  simp only [step, scanned] at stepped
  cases reference with
  | character char? =>
    cases char? with
    | none => exact absurd stepped (stop_ne_ok _ _ _ _ _)
    | some char =>
      cases stepped
      exact written char
  | entity name =>
    dsimp only at stepped
    split at stepped
    · cases stepped
      exact written _
    · obtain ⟨scope_eq, events_eq⟩ := enterEntity_eq_ok stepped
      exact .quiet scope_eq events_eq

/-- A character section adds its text, if it is closed. -/
theorem progress_of_sectionOpen
    {rest : List Char}
    (scanned : scanContent reader.current = .token .sectionOpen rest)
    (stepped : reader.step = .ok after) :
    reader.Progress after := by
  simp only [step, scanned] at stepped
  split at stepped
  · cases stepped
    exact progress_emitText (scope_resumeWith _ _) (events_resumeWith _ _) _
  · exact absurd stepped (stop_ne_ok _ _ _ _ _)
  · exact absurd stepped (stop_ne_ok _ _ _ _ _)

/-- Of what stands at the end of a text, only a return or brackets may be the last. -/
theorem progress_of_last
    {value : ContentToken}
    (scanned : scanContent reader.current = .last value)
    (stepped : reader.step = .ok after) :
    reader.Progress after := by
  cases value with
  | trailingReturn =>
    simp only [step, scanned] at stepped
    exact progress_emitText_endOfText stepped
  | trailingBrackets chars =>
    simp only [step, scanned] at stepped
    exact progress_emitText_endOfText stepped
  | _ =>
    simp only [step, scanned] at stepped
    exact absurd stepped (stop_ne_ok _ _ _ _ _)

theorem progress_of_step
    (isSound : reader.scope.IsSound)
    (stepped : reader.step = .ok after) :
    reader.Progress after := by
  cases scanned : scanContent reader.current with
  | empty =>
    simp only [step, scanned] at stepped
    obtain ⟨scope_eq, events_eq⟩ := endOfText_eq_ok stepped
    exact .quiet scope_eq events_eq
  | invalid rest =>
    simp only [step, scanned] at stepped
    exact absurd stepped (stop_ne_ok _ _ _ _ _)
  | unfinished =>
    simp only [step, scanned] at stepped
    exact absurd stepped (stop_ne_ok _ _ _ _ _)
  | last value => exact progress_of_last scanned stepped
  | token value rest =>
    cases value with
    | startTag name attributes closed =>
      obtain ⟨tag, ⟨depth_eq, isSound, events_eq⟩ | ⟨scope_eq, events_eq⟩⟩ :=
        exists_tag_of_step isSound scanned stepped
      · exact .start tag depth_eq isSound events_eq
      · exact .content (.element tag .nil .nil) scope_eq
          (by rw [events_eq, List.append_assoc]; simp [Content.events])
    | endTag name =>
      simp only [step, scanned] at stepped
      obtain ⟨closed, ended, stepped⟩ := bind_eq_ok_iff.mp stepped
      cases stepped
      exact (progress_endTag isSound ended).of_eq (scope_continueWith _ _) (events_continueWith _ _)
    | reference reference => exact progress_of_reference scanned stepped
    | text chars =>
      simp only [step, scanned] at stepped
      cases stepped
      exact progress_emitText (scope_continueWith _ _) (events_continueWith _ _) _
    | sectionOpen => exact progress_of_sectionOpen scanned stepped
    | declaration =>
      simp only [step, scanned] at stepped
      exact absurd stepped (stop_ne_ok _ _ _ _ _)
    | _ =>
      simp only [step, scanned] at stepped
      cases stepped
      exact .quiet (scope_continueWith _ _) (events_continueWith _ _)

/-! ## Reading to the end -/

/-- The events so far are those of the open elements, or those of markup if none is open any more. -/
inductive IsReading (reader : Reader) : Prop where
  | inside
      (inner : Opening)
      (outer : List Opening)
      (depth_eq : reader.tags.length = outer.length + 1)
      (events_eq : reader.events.reverse = Opening.events (inner :: outer)) :
      IsReading reader
  | behind
      (markup : Markup)
      (tags_eq : reader.tags = [])
      (events_eq : reader.events.reverse = markup.events) :
      IsReading reader

theorem isReading_of_progress {before : Reader}
    (isReading : before.IsReading)
    (isOpen : before.tags ≠ [])
    (progress : before.Progress after) :
    after.IsReading := by
  cases isReading with
  | behind markup tags_eq => exact absurd tags_eq isOpen
  | inside inner outer depth_eq events_eq =>
    cases progress with
    | content more scope_eq events =>
      have tags_eq : after.tags = before.tags := congrArg Scope.tags scope_eq
      refine .inside (inner.add more) outer (by rw [tags_eq, depth_eq]) ?_
      rw [events, events_eq, Opening.events_add]
    | start tag depth _ events =>
      refine .inside ⟨tag, .nil⟩ (inner :: outer) (by simp [depth, depth_eq]) ?_
      rw [events, events_eq]
      simp [Opening.events, Content.events]
    | finish depth _ events =>
      -- what ends is all of the markup, or becomes content of the element around it
      cases outer with
      | nil =>
        refine .behind ⟨inner.tag, inner.content⟩ (List.length_eq_zero_iff.mp (by simp_all)) ?_
        rw [events, events_eq]
        simp [Opening.events, Markup.events]
      | cons next outer =>
        refine .inside (next.add (.element inner.tag inner.content .nil)) outer (by simp_all) ?_
        rw [events, events_eq, Opening.events_finish]

theorem events_of_epilog {rounds : Nat} {last : Reader} (read : reader.epilog rounds = .ok last) :
    last.events = reader.events := by
  induction rounds generalizing reader with
  | zero =>
    cases read
    rfl
  | succ rounds ih =>
    simp only [epilog] at read
    split at read
    · cases read
      rfl
    · have kept := ih read
      exact kept
    · exact absurd read (stop_ne_ok _ _ _ _ _)
    · exact absurd read (stop_ne_ok _ _ _ _ _)
    · exact absurd read (stop_ne_ok _ _ _ _ _)

theorem exists_markup_of_epilog {rounds : Nat} {last : Reader}
    (isReading : reader.IsReading)
    (closed : reader.tags = [])
    (read : reader.epilog rounds = .ok last) :
    ∃ markup : Markup, last.events.reverse = markup.events := by
  rw [events_of_epilog read]
  cases isReading with
  | behind markup _ events_eq => exact ⟨markup, events_eq⟩
  | inside inner outer depth_eq _ =>
    rw [closed] at depth_eq
    contradiction

/-- Content that is read until the root element is closed completes the markup. -/
theorem exists_markup_of_content {steps : Nat} {last : Reader}
    (isSound : reader.scope.IsSound)
    (isReading : reader.IsReading)
    (isOpen : reader.tags ≠ [])
    (read : reader.content steps = .ok last) :
    ∃ markup : Markup, last.events.reverse = markup.events := by
  induction steps generalizing reader with
  | zero => exact absurd read (stop_ne_ok _ _ _ _ _)
  | succ steps ih =>
    rw [content] at read
    split at read
    · exact absurd read (stop_ne_ok _ _ _ _ _)
    · obtain ⟨next, stepped, read⟩ := bind_eq_ok_iff.mp read
      -- charging the step to the allowance changes nothing that counts here
      generalize charged : (if (!reader.frames.isEmpty) = true then
        { next with allowance := next.allowance - 1 } else next) = after at read
      have same : after.scope = next.scope ∧ after.events = next.events := by
        rw [← charged]
        split <;> exact ⟨rfl, rfl⟩
      have progress := (progress_of_step isSound stepped).of_eq same.1 same.2
      have isReading := isReading_of_progress isReading isOpen progress
      dsimp only at read
      split at read
      · next closed => exact exists_markup_of_epilog isReading (List.isEmpty_iff.mp closed) read
      · next isOpen =>
        exact ih (progress.isSound isSound) isReading (mt List.isEmpty_iff.mpr isOpen) read

/-! ## Reading from the start -/

/-- Where an element begins, no other token than a start tag can be found. -/
theorem exists_startTag_of_beginsElement
    {text rest : List Char}
    {value : ContentToken}
    (begins : BeginsElement text)
    (scanned : scanContent text = .token value rest) :
    ∃ name attributes closed, value = .startTag name attributes closed := by
  obtain ⟨char, behind, rfl, start⟩ := begins
  have other : ∀ mark : Char, ¬(isNameStart mark = true ∨ 0x80 ≤ mark.toNat) → char ≠ mark := by
    rintro mark never rfl
    exact never start
  have markup_eq : scanContent ('<' :: char :: behind) = scanStartTag (char :: behind) := by
    simp only [scanContent]
    unfold scanMarkup
    split
    · next same => exact absurd (List.cons.inj same).1 (other '!' (by decide))
    · next same => exact absurd (List.cons.inj same).1 (other '?' (by decide))
    · next same => exact absurd (List.cons.inj same).1 (other '/' (by decide))
    · rfl
  have isStartTag := yields_scanStartTag (char :: behind)
  rw [← markup_eq, scanned] at isStartTag
  cases value with
  | startTag name attributes closed => exact ⟨name, attributes, closed, rfl⟩
  | _ => cases isStartTag

theorem endOfText_ne_ok {site : List Char} (outermost : reader.frames = []) :
    reader.endOfText site ≠ .ok after := by
  unfold endOfText
  rw [outermost]
  exact stop_ne_ok _ _ _ _ _

theorem frames_emitText (reader : Reader) (chars : List Char) :
    (reader.emitText chars).frames = reader.frames := by
  unfold emitText
  split <;> rfl

theorem exists_startTag_of_step
    (outermost : reader.frames = [])
    (begins : BeginsElement reader.current)
    (stepped : reader.step = .ok after) :
    ∃ name attributes closed rest,
      scanContent reader.current = .token (.startTag name attributes closed) rest := by
  cases scanned : scanContent reader.current with
  | token value rest =>
    obtain ⟨name, attributes, closed, rfl⟩ := exists_startTag_of_beginsElement begins scanned
    exact ⟨name, attributes, closed, rest, rfl⟩
  | empty =>
    simp only [step, scanned] at stepped
    exact absurd stepped (endOfText_ne_ok outermost)
  | last value =>
    have ended : ∀ chars site, (reader.emitText chars).endOfText site ≠ .ok after :=
      fun chars site => endOfText_ne_ok ((frames_emitText reader chars).trans outermost)
    simp only [step, scanned] at stepped
    cases value with
    | trailingReturn => exact absurd stepped (ended _ _)
    | trailingBrackets chars => exact absurd stepped (ended _ _)
    | _ => exact absurd stepped (stop_ne_ok _ _ _ _ _)
  | _ =>
    simp only [step, scanned] at stepped
    exact absurd stepped (stop_ne_ok _ _ _ _ _)

/-- Where an element begins, the first step opens it, or reads all of it. -/
theorem isReading_of_step
    (isSound : reader.scope.IsSound)
    (outermost : reader.frames = [])
    (unread : reader.tags = [] ∧ reader.events = [])
    (begins : BeginsElement reader.current)
    (stepped : reader.step = .ok after) :
    after.IsReading := by
  obtain ⟨tags_eq, events_eq⟩ := unread
  obtain ⟨name, attributes, closed, rest, scanned⟩ := exists_startTag_of_step outermost begins stepped
  obtain ⟨tag, ⟨depth, -, events⟩ | ⟨scope_eq, events⟩⟩ := exists_tag_of_step isSound scanned stepped
  · refine .inside ⟨tag, .nil⟩ [] (by simp [depth, tags_eq]) ?_
    simp [events, events_eq, Opening.events, Content.events]
  · refine .behind ⟨tag, .nil⟩ ((congrArg Scope.tags scope_eq).trans tags_eq) ?_
    simp [events, events_eq, Markup.events, Content.events]

end Reader

theorem exists_markup_of_readUnmarked
    {source text : List Char}
    {events : List Event}
    (read : readUnmarked source text = .ok events) :
    ∃ markup : Markup, events = markup.events := by
  unfold readUnmarked at read
  split at read
  · contradiction
  · next prolog ran =>
    obtain ⟨begins, sound⟩ := beginsElement_of_prolog ran
    obtain ⟨first, stepped, read⟩ := bind_eq_ok_iff.mp read
    have noDeclarations : Dtd.none.IsSound := ⟨by simp [Dtd.none], by simp [Dtd.none]⟩
    have isSound : Reader.Scope.IsSound ⟨prolog.dtd, [], []⟩ :=
      ⟨sound noDeclarations, by simp [Bindings.IsPlain], by simp⟩
    have isReading : first.IsReading := by
      refine Reader.isReading_of_step ?_ rfl ⟨rfl, rfl⟩ ?_ stepped
      · exact isSound
      · exact begins
    have isSound : first.scope.IsSound := by
      refine Reader.Progress.isSound ?_ (Reader.progress_of_step ?_ stepped) <;> exact isSound
    dsimp only at read
    split at read
    · next closed =>
      obtain ⟨last, finished, read⟩ := bind_eq_ok_iff.mp read
      obtain ⟨markup, events_eq⟩ :=
        Reader.exists_markup_of_epilog isReading (List.isEmpty_iff.mp closed) finished
      split at read <;> cases read
      exact ⟨markup, events_eq⟩
    · next isOpen =>
      obtain ⟨last, finished, read⟩ := bind_eq_ok_iff.mp read
      obtain ⟨markup, events_eq⟩ :=
        Reader.exists_markup_of_content isSound isReading (mt List.isEmpty_iff.mpr isOpen) finished
      split at read <;> cases read
      exact ⟨markup, events_eq⟩

/-- The events of a document are those of markup. -/
theorem exists_markup_of_read
    {source : List Char}
    {events : List Event}
    (known : read source = .ok events) :
    ∃ markup : Markup, events = markup.events := by
  unfold read at known
  split at known
  · next wide _ =>
    unfold readWide at known
    dsimp only at known
    split at known
    · next read =>
      split at known
      · contradiction
      · cases known
        exact exists_markup_of_readUnmarked read
    · split at known <;> contradiction
  · unfold readNarrow at known
    dsimp only at known
    split at known
    · next read =>
      cases known
      exact exists_markup_of_readUnmarked read
    · contradiction

end Xml
end MarkupLint
