import MarkupLint.Files.Glob
import MarkupLint.Proofs.Files.Finding
import MarkupLint.Proofs.Text.Quoted
import Mathlib.Data.List.Induction

/-!
# Names and their texts

The text of an absolute name is read as the same name again.  Between its slashes stand the parts of
the name, with nothing else but empty parts in front of them, and what it is cut into at its last
slash are the name above it and the last part.
-/

namespace MarkupLint
namespace Files

/-! ## Texts between slashes -/

theorem splitAt_ne_nil (separator : Char) (text : List Char) : splitAt separator text ≠ [] := by
  induction text with
  | nil => exact List.cons_ne_nil _ _
  | cons char rest ih =>
    rw [splitAt]
    split
    · exact List.cons_ne_nil _ _
    · split <;> exact List.cons_ne_nil _ _

theorem splitAt_append_cons (separator : Char) (front behind : List Char) :
    splitAt separator (front ++ separator :: behind) =
      splitAt separator front ++ splitAt separator behind := by
  induction front with
  | nil => simp [splitAt]
  | cons char rest ih =>
    rw [List.cons_append, splitAt, splitAt, ih]
    split
    · rfl
    · cases known : splitAt separator rest with
      | nil => exact absurd known (splitAt_ne_nil separator rest)
      | cons piece others => rfl

/-- The pieces of a text have no separator, and all of their characters are in the text. -/
theorem mem_splitAt
    {separator : Char}
    {text piece : List Char}
    (held : piece ∈ splitAt separator text) :
    separator ∉ piece ∧ piece ⊆ text := by
  induction text generalizing piece with
  | nil =>
    rw [splitAt, List.mem_singleton] at held
    simp [held]
  | cons char rest ih =>
    rw [splitAt] at held
    split at held
    · rcases List.mem_cons.mp held with rfl | held
      · simp
      · exact ⟨(ih held).1, fun _ inside => List.mem_cons_of_mem _ ((ih held).2 inside)⟩
    · next different =>
      split at held
      · next first others known =>
        rcases List.mem_cons.mp held with rfl | held
        · obtain ⟨apart, below⟩ := ih (known ▸ List.mem_cons_self)
          refine ⟨?_, List.cons_subset_cons char below⟩
          rw [List.mem_cons, not_or]
          exact ⟨fun same => different same.symm, apart⟩
        · obtain ⟨apart, below⟩ := ih (known ▸ List.mem_cons_of_mem _ held)
          exact ⟨apart, fun _ inside => List.mem_cons_of_mem _ (below inside)⟩
      · next known => exact absurd known (splitAt_ne_nil separator rest)

/-- Every other character of a text is in one of its pieces. -/
theorem exists_mem_splitAt
    {separator char : Char}
    {text : List Char}
    (held : char ∈ text)
    (other : char ≠ separator) :
    ∃ piece ∈ splitAt separator text, char ∈ piece := by
  induction text with
  | nil => contradiction
  | cons first rest ih =>
    rw [splitAt]
    rcases List.mem_cons.mp held with rfl | held
    · rw [if_neg other]
      split <;> simp
    · obtain ⟨piece, inside, among⟩ := ih held
      split
      · exact ⟨piece, List.mem_cons_of_mem _ inside, among⟩
      · split
        · next next others known =>
          rw [known] at inside
          rcases List.mem_cons.mp inside with rfl | inside
          · exact ⟨_, List.mem_cons_self, List.mem_cons_of_mem _ among⟩
          · exact ⟨piece, List.mem_cons_of_mem _ inside, among⟩
        · next known =>
          rw [known] at inside
          contradiction

theorem partsOf_append_slash (front behind : String) :
    partsOf (front ++ "/" ++ behind) = partsOf front ++ partsOf behind := by
  have slash : "/".toList = ['/'] := by decide
  rw [partsOf, String.toList_append, String.toList_append, slash, List.append_assoc,
    List.singleton_append, splitAt_append_cons, List.map_append]
  rfl

theorem partsOf_of_notMem {part : String} (whole : '/' ∉ part.toList) : partsOf part = [part] := by
  rw [partsOf, splitAt_of_notMem whole, List.map_singleton, String.ofList_toList]

theorem partsOf_intercalate
    {parts : List String}
    (some : parts ≠ [])
    (whole : ∀ part ∈ parts, '/' ∉ part.toList) :
    partsOf (String.intercalate "/" parts) = parts := by
  induction parts with
  | nil => contradiction
  | cons part rest ih =>
    rw [List.forall_mem_cons] at whole
    by_cases last : rest = []
    · rw [last, String.intercalate_singleton, partsOf_of_notMem whole.1]
    · rw [String.intercalate_cons_of_ne_nil last, partsOf_append_slash, partsOf_of_notMem whole.1,
        ih last whole.2, List.singleton_append]

theorem notMem_of_mem_partsOf
    {text part : String}
    (held : part ∈ partsOf text) :
    '/' ∉ part.toList ∧ part.toList ⊆ text.toList := by
  obtain ⟨piece, inside, rfl⟩ := List.mem_map.mp held
  rw [String.toList_ofList]
  exact mem_splitAt inside

/-! ## Parts of names -/

/-- A part of a name that says something and has no slash. -/
structure IsPart (part : String) : Prop where
  isTelling : PathName.isTelling part = true
  isWhole : '/' ∉ part.toList

instance (part : String) : Decidable (IsPart part) :=
  decidable_of_iff (PathName.isTelling part = true ∧ '/' ∉ part.toList)
    ⟨fun both => ⟨both.1, both.2⟩, fun proper => ⟨proper.isTelling, proper.isWhole⟩⟩

namespace IsPart

variable {part : String}

theorem ne (proper : IsPart part) : part ≠ "" ∧ part ≠ "." := by
  have telling := proper.isTelling
  rwa [PathName.isTelling, Bool.and_eq_true, bne_iff_ne, bne_iff_ne] at telling

theorem toList_ne_nil (proper : IsPart part) : part.toList ≠ [] :=
  fun empty => proper.ne.1 (String.toList_inj.mp (empty.trans (by decide : [] = "".toList)))

end IsPart

namespace PathName

/-- A name whose parts all say something and have no slashes. -/
def IsTidy (name : PathName) : Prop := ∀ part ∈ name.parts, IsPart part

instance (name : PathName) : Decidable name.IsTidy :=
  inferInstanceAs (Decidable (∀ part ∈ name.parts, IsPart part))

theorem isTidy_ofText (text : String) : (ofText text).IsTidy := by
  intro part held
  obtain ⟨inside, telling⟩ := List.mem_filter.mp held
  exact ⟨telling, (notMem_of_mem_partsOf inside).1⟩

theorem IsTidy.join {base name : PathName} (above : base.IsTidy) (below : name.IsTidy) :
    (base.join name).IsTidy := by
  unfold PathName.join
  split
  · exact below
  · intro part held
    rcases List.mem_append.mp held with held | held
    · exact above part held
    · exact below part held

theorem isAbsolute_join {base : PathName} (absolute : base.isAbsolute = true) (name : PathName) :
    (base.join name).isAbsolute = true := by
  unfold join
  split
  · assumption
  · exact absolute

/-! ## Texts of names -/

/-- What stands in front of the parts of a name below this one. -/
def leading (name : PathName) : String :=
  if name.parts = [] then rootText name.root else name.text ++ "/"

theorem text_of_isAbsolute {name : PathName} (absolute : name.isAbsolute = true) :
    name.text = rootText name.root ++ String.intercalate "/" name.parts := by
  have rooted : name.root ≠ .relative := bne_iff_ne.mp absolute
  simp [text, rooted]

/-- The text of a name below another one. -/
theorem text_append
    {root : Root}
    {parts : List String}
    (absolute : isAbsolute ⟨root, parts⟩ = true)
    {below : List String}
    (some : below ≠ []) :
    text ⟨root, parts ++ below⟩ = leading ⟨root, parts⟩ ++ String.intercalate "/" below := by
  have longer : isAbsolute ⟨root, parts ++ below⟩ = true := absolute
  rw [text_of_isAbsolute longer, leading]
  split
  · next none =>
    simp only at none
    rw [none, List.nil_append]
  · next other =>
    rw [text_of_isAbsolute absolute, String.intercalate_append_of_ne_nil other some,
      String.append_assoc, String.append_assoc, String.append_assoc]

theorem text_append_singleton
    {root : Root}
    {parts : List String}
    (absolute : isAbsolute ⟨root, parts⟩ = true)
    (last : String) :
    text ⟨root, parts ++ [last]⟩ = leading ⟨root, parts⟩ ++ last := by
  rw [text_append absolute (List.cons_ne_nil _ _), String.intercalate_singleton]

theorem exists_rootText_eq {root : Root} (absolute : root ≠ .relative) :
    ∃ front, rootText root = front ++ "/" ∧ partsOf front ≠ [] ∧ ∀ part ∈ partsOf front, part = "" := by
  cases root with
  | relative => contradiction
  | slash => exact ⟨"", by decide, by decide, by decide⟩
  | doubleSlash => exact ⟨"/", by decide, by decide, by decide⟩

/-- The parts of a name stand between the slashes of its text, behind empty ones. -/
theorem partsOf_text
    {name : PathName}
    (absolute : name.isAbsolute = true)
    (tidy : name.IsTidy) :
    ∃ idle, idle ≠ [] ∧ (∀ part ∈ idle, part = "") ∧ partsOf name.text = idle ++ name.parts := by
  obtain ⟨root, parts⟩ := name
  obtain ⟨front, front_eq, nonempty, empty⟩ := exists_rootText_eq (bne_iff_ne.mp absolute)
  cases parts with
  | nil =>
    refine ⟨partsOf front ++ [""], by simp, ?_, ?_⟩
    · simpa [or_imp, forall_and] using empty
    · rw [text_of_isAbsolute absolute, String.intercalate_nil, front_eq,
        partsOf_append_slash, List.append_nil]
      rfl
  | cons first rest =>
    refine ⟨partsOf front, nonempty, empty, ?_⟩
    rw [text_of_isAbsolute absolute, front_eq, partsOf_append_slash,
      partsOf_intercalate (List.cons_ne_nil _ _) fun part held => (tidy part held).isWhole]

theorem notMem_text
    {name : PathName}
    (absolute : name.isAbsolute = true)
    (clean : ∀ part ∈ name.parts, '\x00' ∉ part.toList) :
    '\x00' ∉ name.text.toList := by
  rw [PathName.text_of_isAbsolute absolute, String.toList_append, List.mem_append, not_or]
  refine ⟨?_, Text.notMem_intercalate (by decide) clean⟩
  cases name.root <;> decide

/-- What follows the slashes at the front of a text. -/
theorem exists_toList_text
    {name : PathName}
    (absolute : name.isAbsolute = true)
    (tidy : name.IsTidy) :
    ∃ rest, name.text.toList = (rootText name.root).toList ++ rest ∧ rest.head? ≠ some '/' := by
  refine ⟨(String.intercalate "/" name.parts).toList, ?_, ?_⟩
  · rw [text_of_isAbsolute absolute, String.toList_append]
  · obtain ⟨root, parts⟩ := name
    cases parts with
    | nil => simp
    | cons first rest =>
      have proper := tidy first List.mem_cons_self
      obtain ⟨char, others, spelled⟩ := List.exists_cons_of_ne_nil proper.toList_ne_nil
      have whole := proper.isWhole
      rw [spelled, List.mem_cons, not_or] at whole
      have other : char ≠ '/' := Ne.symm whole.1
      by_cases last : rest = []
      · simp [last, spelled, other]
      · simp [String.intercalate_cons_of_ne_nil last, spelled, other]

theorem rootOf_append
    {root : Root}
    {rest : List Char}
    (begins : rest.head? ≠ some '/') :
    rootOf ((rootText root).toList ++ rest) = root := by
  have stops : rest.takeWhile (· == '/') = [] := by
    cases rest with
    | nil => rfl
    | cons char others =>
      have other : char ≠ '/' := by simpa using begins
      simp [other]
  have slashes : ∀ char ∈ (rootText root).toList, (char == '/') = true := by
    rw [← List.all_eq_true]
    cases root <;> decide
  rw [rootOf, List.takeWhile_append_of_pos slashes, stops, List.append_nil]
  cases root <;> decide

/-- An absolute name is read from its text again. -/
theorem ofText_text
    {name : PathName}
    (absolute : name.isAbsolute = true)
    (tidy : name.IsTidy) :
    ofText name.text = name := by
  obtain ⟨idle, -, empty, known⟩ := partsOf_text absolute tidy
  obtain ⟨rest, spelled, begins⟩ := exists_toList_text absolute tidy
  have parts_eq : (partsOf name.text).filter isTelling = name.parts := by
    have none : idle.filter isTelling = [] :=
      List.filter_eq_nil_iff.mpr fun part held => by rw [empty part held]; decide
    have all : name.parts.filter isTelling = name.parts :=
      List.filter_eq_self.mpr fun part held => (tidy part held).isTelling
    rw [known, List.filter_append, none, all, List.nil_append]
  have root_eq : rootOf name.text.toList = name.root := by rw [spelled, rootOf_append begins]
  rw [ofText]
  change PathName.mk (rootOf name.text.toList) ((partsOf name.text).filter isTelling) = name
  rw [root_eq, parts_eq]

/-- A name with a slash at its end is read as the same name. -/
theorem ofText_leading
    {name : PathName}
    (absolute : name.isAbsolute = true)
    (tidy : name.IsTidy) :
    ofText name.leading = name := by
  obtain ⟨root, parts⟩ := name
  have alone : ofText (rootText root) = ⟨root, []⟩ := by
    have same := @ofText_text ⟨root, []⟩ absolute fun _ held => nomatch held
    rwa [@text_of_isAbsolute ⟨root, []⟩ absolute, String.intercalate_nil, String.append_empty] at same
  have same := ofText_text absolute tidy
  rw [leading]
  split
  · next none =>
    simp only at none
    rw [alone, none]
  · next nonempty =>
    obtain ⟨rest, spelled, begins⟩ := exists_toList_text absolute tidy
    have more : rest ≠ [] := by
      rintro rfl
      rw [List.append_nil] at spelled
      rw [String.toList_inj.mp spelled, alone] at same
      exact nonempty (congrArg PathName.parts same).symm
    have root_eq : rootOf ((text ⟨root, parts⟩) ++ "/").toList = root := by
      rw [String.toList_append, spelled, List.append_assoc]
      refine rootOf_append ?_
      rwa [List.head?_append_of_ne_nil _ more]
    have parts_eq : (partsOf ((text ⟨root, parts⟩) ++ "/")).filter isTelling = parts := by
      have whole := partsOf_append_slash (text ⟨root, parts⟩) ""
      rw [String.append_empty] at whole
      rw [whole, List.filter_append]
      exact (List.append_nil _).trans (congrArg PathName.parts same)
    rw [ofText]
    change PathName.mk (rootOf _) ((partsOf _).filter isTelling) = _
    rw [root_eq, parts_eq]

end PathName

/-! ## Names above and below -/

namespace Glob

theorem joined_of_slash
    {directory : String}
    (ends : directory.toList.getLast? = some '/')
    (name : String) :
    joined directory name = directory ++ name := by
  have nonempty : directory ≠ "" := by
    rintro rfl
    exact absurd ends (by decide)
  simp [joined, nonempty, ends]

theorem joined_of_other
    {directory : String}
    (nonempty : directory ≠ "")
    (ends : directory.toList.getLast? ≠ some '/')
    (name : String) :
    joined directory name = directory ++ "/" ++ name := by
  simp [joined, nonempty, ends]

/-- A text is cut at its last slash, and the slashes in front of that one are left out unless nothing
else is there. -/
theorem splitLast_append_cons
    {front behind : List Char}
    (whole : '/' ∉ behind) :
    splitLast (front ++ '/' :: behind) =
      let stripped := (front.reverse.dropWhile (· == '/')).reverse
      (if stripped.isEmpty then front ++ ['/'] else stripped, behind) := by
  have others : ∀ char ∈ behind.reverse, (char != '/') = true := by
    intro char held
    rw [bne_iff_ne]
    rintro rfl
    exact whole (List.mem_reverse.mp held)
  have kept : (front ++ '/' :: behind).reverse.takeWhile (· != '/') = behind.reverse := by
    rw [List.reverse_append, List.reverse_cons, List.append_assoc,
      List.takeWhile_append_of_pos others]
    simp
  have taken : (front ++ '/' :: behind).take ((front ++ '/' :: behind).length - behind.length) =
      front ++ ['/'] := by
    rw [List.append_cons, List.length_append, Nat.add_sub_cancel, List.take_left]
  simp only [splitLast, kept, List.reverse_reverse, taken]
  simp

open PathName (IsTidy isAbsolute leading text rootText)

variable {root : Root} {parts : List String}

/-- The text of a name ends with a slash only if there are no parts. -/
theorem getLast?_toList_text
    (absolute : isAbsolute ⟨root, parts⟩ = true)
    (tidy : IsTidy ⟨root, parts⟩)
    (nonempty : parts ≠ []) :
    (text ⟨root, parts⟩).toList.getLast? ≠ some '/' := by
  obtain ⟨above, last, rfl⟩ := (List.eq_nil_or_concat' parts).resolve_left nonempty
  have proper := tidy last (by simp)
  have shorter : isAbsolute ⟨root, above⟩ = true := absolute
  rw [PathName.text_append_singleton shorter, String.toList_append,
    List.getLast?_append_of_ne_nil _ proper.toList_ne_nil]
  intro ends
  exact proper.isWhole (List.mem_of_getLast? ends)

theorem text_ne_empty (absolute : isAbsolute ⟨root, parts⟩ = true) : text ⟨root, parts⟩ ≠ "" := by
  obtain ⟨front, front_eq, -⟩ := PathName.exists_rootText_eq (bne_iff_ne.mp absolute)
  rw [PathName.text_of_isAbsolute absolute, front_eq]
  simp

/-- The name of something inside a directory. -/
theorem joined_text
    (absolute : isAbsolute ⟨root, parts⟩ = true)
    (tidy : IsTidy ⟨root, parts⟩)
    (name : String) :
    joined (text ⟨root, parts⟩) name = leading ⟨root, parts⟩ ++ name := by
  by_cases none : parts = []
  · subst none
    obtain ⟨front, front_eq, -⟩ := PathName.exists_rootText_eq (bne_iff_ne.mp absolute)
    have ends : (text ⟨root, []⟩).toList.getLast? = some '/' := by
      rw [PathName.text_of_isAbsolute absolute, front_eq]
      simp
    rw [joined_of_slash ends, PathName.text_of_isAbsolute absolute]
    simp [leading]
  · rw [joined_of_other (text_ne_empty absolute) (getLast?_toList_text absolute tidy none), leading,
      if_neg none]

theorem dropWhile_eq_self
    {text : List Char}
    (begins : text.head? ≠ some '/') :
    text.dropWhile (· == '/') = text := by
  cases text with
  | nil => rfl
  | cons char rest =>
    have other : char ≠ '/' := by simpa using begins
    simp [other]

/-- The text of a name is cut into the name above it and the last part. -/
theorem splitLast_text
    {last : String}
    (absolute : isAbsolute ⟨root, parts⟩ = true)
    (tidy : IsTidy ⟨root, parts ++ [last]⟩) :
    splitLast (text ⟨root, parts ++ [last]⟩).toList =
      ((text ⟨root, parts⟩).toList, last.toList) := by
  have whole : '/' ∉ last.toList := (tidy last (by simp)).isWhole
  have slash : "/".toList = ['/'] := by decide
  rw [PathName.text_append_singleton absolute, leading]
  by_cases none : parts = []
  · subst none
    rw [if_pos rfl, PathName.text_of_isAbsolute absolute, String.intercalate_nil,
      String.append_empty]
    cases root with
    | relative => contradiction
    | slash => simpa [rootText] using @splitLast_append_cons [] _ whole
    | doubleSlash => simpa [rootText] using @splitLast_append_cons ['/'] _ whole
  · have above : IsTidy ⟨root, parts⟩ := fun part held => tidy part (List.mem_append_left _ held)
    have ends := getLast?_toList_text absolute above none
    rw [← List.head?_reverse] at ends
    rw [if_neg none, String.toList_append, String.toList_append, slash, List.append_assoc,
      List.singleton_append, splitLast_append_cons whole]
    simp [dropWhile_eq_self ends, text_ne_empty absolute]

end Glob
end Files
end MarkupLint
