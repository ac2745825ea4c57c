import MarkupLint.Proofs.Xml.Name
import MarkupLint.Xml.ContentToken
import MarkupLint.Xml.PrologToken
import Mathlib.Data.List.Infix

/-!
# What scanning finds and leaves

The text behind a token is an end of the text that was scanned.  So scanning outside the root
element makes the text shorter, up to the start tag of the root element.  The names in tokens are
written ones.
-/

namespace MarkupLint
namespace Xml
namespace Scan

/-- What a scan finds is of some kind, and the text behind it is an end of the given text. -/
def Finds (text : List Char) (Is : α → Prop) : Scan α → Prop
  | token value rest => Is value ∧ rest <:+ text
  | last value => Is value
  | _ => True

/-- The text behind a token is an end of the given text. -/
abbrev Leaves (scan : Scan α) (text : List Char) : Prop := scan.Finds text fun _ => True

/-- A complete token that a scan finds is of some kind. -/
def Yields (Is : α → Prop) : Scan α → Prop
  | token value _ => Is value
  | _ => True

variable {text rest : List Char} {Is : α → Prop} {scan : Scan α} {value : α}

/-- It does not matter what stands in front of the text that was scanned. -/
theorem Finds.mono (finds : scan.Finds text Is) {whole : List Char} (isEnd : text <:+ whole) :
    scan.Finds whole Is := by
  cases scan with
  | token value rest => exact ⟨finds.1, finds.2.trans isEnd⟩
  | last value => exact finds
  | _ => trivial

theorem Finds.cons (finds : scan.Finds text Is) (char : Char) : scan.Finds (char :: text) Is :=
  finds.mono (List.suffix_cons char text)

theorem Leaves.map
    (leaves : scan.Leaves text)
    {change : α → β}
    {Is : β → Prop}
    (is : ∀ value, Is (change value)) :
    (scan.map change).Finds text Is := by
  cases scan with
  | token value rest => exact ⟨is value, leaves.2⟩
  | last value => exact is value
  | _ => trivial

theorem Leaves.andThen
    (leaves : scan.Leaves text)
    {next : α → List Char → Scan β}
    {Is : β → Prop}
    (findsNext : ∀ value rest, (next value rest).Finds rest Is) :
    (scan.andThen next).Finds text Is := by
  cases scan with
  | token value rest => exact (findsNext value rest).mono leaves.2
  | _ => trivial

theorem Yields.map
    (yields : scan.Yields Is)
    {change : α → β}
    {IsToo : β → Prop}
    (is : ∀ value, Is value → IsToo (change value)) :
    (scan.map change).Yields IsToo := by
  cases scan with
  | token value rest => exact is value yields
  | _ => trivial

theorem Yields.imp
    (yields : scan.Yields Is)
    {IsToo : α → Prop}
    (implies : ∀ value, Is value → IsToo value) :
    scan.Yields IsToo := by
  cases scan with
  | token value rest => exact implies value yields
  | _ => trivial

theorem Yields.andThen
    (yields : scan.Yields Is)
    {next : α → List Char → Scan β}
    {IsToo : β → Prop}
    (yieldsNext : ∀ value rest, Is value → (next value rest).Yields IsToo) :
    (scan.andThen next).Yields IsToo := by
  cases scan with
  | token value rest => exact yieldsNext value rest yields
  | _ => trivial

theorem yields_true (scan : Scan α) : scan.Yields fun _ => True := by
  cases scan <;> trivial

theorem leaves_token (value : α) (text : List Char) : (token value text).Leaves text :=
  ⟨trivial, List.suffix_rfl⟩

end Scan

open Scan

theorem skipBlanks_suffix (text : List Char) : skipBlanks text <:+ text :=
  List.dropWhile_suffix _

theorem leaves_scanName (text : List Char) : (scanName text).Leaves text := by
  unfold scanName
  split
  · trivial
  · split
    · exact ⟨trivial, (List.dropWhile_suffix _).trans (List.suffix_cons _ _)⟩
    · trivial

theorem yields_scanName (text : List Char) : (scanName text).Yields IsNamePart := by
  unfold scanName
  split
  · trivial
  · next char rest =>
    split
    · next begins =>
      refine (IsNamePart.singleton (isNameChar_of_isNameStart begins)).append fun char held => ?_
      exact List.all_eq_true.mp List.all_takeWhile char held
    · trivial

theorem leaves_scanCommentBody (text : List Char) : (scanCommentBody text).Leaves text := by
  fun_induction scanCommentBody text with
  | case4 rest => exact (((leaves_token () rest).cons '>').cons '-').cons '-'
  | case6 char rest _ _ _ _ _ ih => exact ih.cons char
  | _ => trivial

theorem leaves_scanComment (text : List Char) : (scanComment text).Leaves text := by
  unfold scanComment
  split
  · trivial
  · exact (leaves_scanCommentBody _).cons '-'
  · trivial

theorem leaves_scanInstructionBody (text : List Char) : (scanInstructionBody text).Leaves text := by
  fun_induction scanInstructionBody text with
  | case3 rest => exact ((leaves_token [] rest).cons '>').cons '?'
  | case4 char rest _ _ _ ih => exact (ih.map fun _ => trivial).cons char
  | _ => trivial

theorem leaves_scanInstruction (text : List Char) : (scanInstruction text).Leaves text := by
  refine (leaves_scanName text).andThen fun target rest => ?_
  split
  · trivial
  · next char after =>
    split
    · split
      · trivial
      · exact ((leaves_scanInstructionBody after).map fun _ => trivial).cons char
    · split
      · split
        · trivial
        · split
          · trivial
          · exact ((leaves_token _ _).cons '>').cons char
          · trivial
      · trivial

/-! ## Tokens outside the root element -/

/-- A token that is not the start tag of the root element, with a written name if it has one. -/
def PrologToken.IsPart : PrologToken → Prop
  | .element => False
  | .name text => IsWritten text
  | .prefixedName text => IsWritten text
  | _ => True

open PrologToken (IsPart)

/-- The characters of a word so far are as its kind says. -/
def WordKind.Tells : WordKind → List Char → Prop
  | .plain, text => IsNamePart text
  | .prefixed, text =>
    ∃ label part, text = label ++ ':' :: part ∧ IsNamePart label ∧ IsNamePart part
  | .other, _ => True

namespace WordKind

variable {kind : WordKind} {text : List Char}

theorem Tells.isPart_token (tells : kind.Tells text) : (kind.token text).IsPart := by
  cases kind with
  | plain => exact .plain tells
  | prefixed =>
    obtain ⟨label, part, rfl, isLabel, isPart⟩ := tells
    exact .prefixed isLabel isPart
  | other => trivial

theorem Tells.append
    (tells : kind.Tells text)
    {char : Char}
    (named : isNameChar char = true) :
    kind.Tells (text ++ [char]) := by
  have each : ∀ other ∈ [char], isNameChar other = true := by simpa using named
  cases kind with
  | plain => exact IsNamePart.append tells each
  | prefixed =>
    obtain ⟨label, part, rfl, isLabel, isPart⟩ := tells
    exact ⟨label, part ++ [char], by simp, isLabel, isPart.append each⟩
  | other => trivial

end WordKind

theorem finds_scanWord
    (kind : WordKind)
    (read text : List Char)
    (tells : kind.Tells read.reverse) :
    (scanWord kind read text).Finds text IsPart := by
  fun_induction scanWord kind read text with
  | case1 kind read => exact tells.isPart_token
  | case2 => trivial
  | case3 read char rest named ih =>
    refine ((ih ⟨_, [char], ?_, tells, .singleton named⟩).cons char).cons ':'
    simp
  | case4 read char rest _ ih => exact (ih trivial).cons ':'
  | case5 kind read rest _ ih => exact (ih trivial).cons ':'
  | case6 kind read char rest _ named ih =>
    have appended := tells.append named
    rw [← List.reverse_cons] at appended
    exact (ih appended).cons char
  | case7 kind read char rest => exact ⟨tells.isPart_token, List.suffix_rfl⟩
  | case8 kind read char rest => exact ⟨trivial, List.suffix_cons char rest⟩
  | case9 => trivial

theorem finds_scanLiteral (quote : Char) (read text : List Char) :
    (scanLiteral quote read text).Finds text IsPart := by
  fun_induction scanLiteral quote read text with
  | case3 read char rest _ _ ih => exact ih.cons char
  | case4 => exact trivial
  | case5 read char => exact ⟨trivial, List.suffix_cons char _⟩
  | _ => trivial

theorem finds_scanPercent (text : List Char) : (scanPercent text).Finds text IsPart := by
  unfold scanPercent
  split
  · trivial
  · split
    · exact ⟨trivial, List.suffix_rfl⟩
    · refine (leaves_scanName _).andThen fun _ rest => ?_
      split
      · trivial
      · exact ⟨trivial, List.suffix_cons ';' _⟩
      · trivial

theorem finds_scanHashName (text : List Char) : (scanHashName text).Finds text IsPart := by
  refine (leaves_scanName text).andThen fun name rest => ?_
  split
  · exact trivial
  · split
    · exact ⟨trivial, List.suffix_rfl⟩
    · trivial

theorem finds_scanDeclarationOpening (text : List Char) :
    (scanDeclarationOpening text).Finds text IsPart := by
  unfold scanDeclarationOpening
  split
  · trivial
  · exact ((leaves_scanComment _).map fun _ => trivial).cons '-'
  · exact ⟨trivial, List.suffix_cons '[' _⟩
  · next char rest _ _ =>
    split
    · have isEnd := (List.dropWhile_suffix isKeywordChar (l := rest)).trans
        (List.suffix_cons char rest)
      split
      · trivial
      · trivial
      · next same =>
        split
        · trivial
        · exact ⟨trivial, same ▸ isEnd⟩
      · next same =>
        split
        · exact ⟨trivial, same ▸ isEnd⟩
        · trivial
    · trivial

theorem finds_scanGroupClosing (text : List Char) : (scanGroupClosing text).Finds text IsPart := by
  unfold scanGroupClosing
  split
  · exact trivial
  · next char rest =>
    split
    · exact ⟨trivial, List.suffix_cons char rest⟩
    · split
      · exact ⟨trivial, List.suffix_rfl⟩
      · trivial

/-- The text begins with the start tag of an element. -/
def BeginsElement (text : List Char) : Prop :=
  ∃ char rest, text = '<' :: char :: rest ∧ (isNameStart char = true ∨ 0x80 ≤ char.toNat)

/-- A token takes at least one character, except the start tag of the root element. -/
theorem finds_scanProlog (text : List Char) :
    (scanProlog text).Finds text.tail IsPart ∨
      scanProlog text = .token .element text ∧ BeginsElement text := by
  unfold scanProlog
  split
  · exact .inl trivial
  · exact .inl (finds_scanLiteral _ _ _)
  · exact .inl (finds_scanLiteral _ _ _)
  · split
    · exact .inl trivial
    · exact .inl ((finds_scanDeclarationOpening _).cons '!')
    · refine .inl (((leaves_scanInstruction _).map fun instruction => ?_).cons '?')
      split <;> exact trivial
    · next char rest _ _ =>
      split
      · next begins => exact .inr ⟨rfl, char, rest, rfl, by simpa using begins⟩
      · exact .inl trivial
  · exact .inl (finds_scanPercent _)
  · exact .inl ⟨trivial, List.suffix_rfl⟩
  · exact .inl ⟨trivial, List.suffix_rfl⟩
  · exact .inl trivial
  · exact .inl trivial
  · exact .inl ⟨trivial, (List.suffix_cons '>' _).trans (List.suffix_cons ']' _)⟩
  · exact .inl ⟨trivial, List.suffix_rfl⟩
  · exact .inl ⟨trivial, List.suffix_rfl⟩
  · exact .inl (finds_scanGroupClosing _)
  · exact .inl ⟨trivial, List.suffix_rfl⟩
  · exact .inl ⟨trivial, List.suffix_rfl⟩
  · exact .inl (finds_scanHashName _)
  · split
    · next begins =>
      exact .inl (finds_scanWord .plain _ _ (.singleton (isNameChar_of_isNameStart begins)))
    · split
      · exact .inl (finds_scanWord .other _ _ trivial)
      · exact .inl trivial

/-! ## Start tags -/

theorem yields_scanQualifiedName (text : List Char) :
    (scanQualifiedName text).Yields IsWritten := by
  refine (yields_scanName text).andThen fun first rest isFirst => ?_
  split
  · exact (yields_scanName _).map fun second isSecond => .prefixed isFirst isSecond
  · exact .plain isFirst

theorem yields_scanAttribute (text : List Char) :
    (scanAttribute text).Yields fun raw => IsWritten raw.name := by
  refine (yields_scanQualifiedName text).andThen fun name rest written => ?_
  split
  · trivial
  · split
    · trivial
    · split
      · exact (yields_true _).map fun value _ => written
      · trivial
  · trivial

theorem yields_scanAttributes (rounds : Nat) (text : List Char) :
    (scanAttributes rounds text).Yields fun found =>
      ∀ raw ∈ found.1, IsWritten raw.name := by
  induction rounds generalizing text with
  | zero => trivial
  | succ rounds ih =>
    refine (yields_scanAttribute text).andThen fun first rest written => ?_
    have alone : ∀ closed : Bool, ∀ raw ∈ ([first], closed).1, IsWritten raw.name := by
      simpa using written
    split
    · trivial
    · split
      · split
        · trivial
        · split
          · exact (ih _).map fun found others => List.forall_mem_cons.mpr ⟨written, others⟩
          · exact (yields_true _).map fun closed _ => alone closed
      · exact (yields_true _).map fun closed _ => alone closed

/-- A start tag with written names. -/
def ContentToken.IsStartTag : ContentToken → Prop
  | .startTag name attributes _ =>
    IsWritten name ∧ ∀ raw ∈ attributes, IsWritten raw.name
  | _ => False

theorem yields_scanStartTag (text : List Char) :
    (scanStartTag text).Yields ContentToken.IsStartTag := by
  refine (yields_scanQualifiedName text).andThen fun name rest written => ?_
  have alone : ∀ closed, (ContentToken.startTag name [] closed).IsStartTag := fun _ =>
    ⟨written, by simp⟩
  split
  · trivial
  · split
    · split
      · trivial
      · split
        · exact (yields_scanAttributes _ _).map fun found others => ⟨written, others⟩
        · exact (yields_true _).map fun closed _ => alone closed
    · exact (yields_true _).map fun closed _ => alone closed

/-- A token of content, with written names if it is a start tag. -/
def ContentToken.IsSound : ContentToken → Prop
  | .startTag name attributes closed => (ContentToken.startTag name attributes closed).IsStartTag
  | _ => True

theorem yields_scanMarkup (text : List Char) : (scanMarkup text).Yields ContentToken.IsSound := by
  have tagged : ∀ token, ContentToken.IsStartTag token → token.IsSound := by
    intro token isStartTag
    cases token with
    | startTag => exact isStartTag
    | _ => trivial
  unfold scanMarkup
  split
  · split
    · trivial
    · exact (yields_true _).map fun _ _ => trivial
    · unfold scanSectionOpen
      dsimp only
      split
      · trivial
      · exact (yields_true _).map fun _ _ => trivial
    · trivial
  · refine (yields_true _).map fun instruction _ => ?_
    split <;> trivial
  · unfold scanEndTag
    split
    · trivial
    · split
      · dsimp only
        split <;> trivial
      · trivial
  · exact (yields_scanStartTag _).imp tagged

theorem yields_scanContent (text : List Char) :
    (scanContent text).Yields ContentToken.IsSound := by
  unfold scanContent
  split
  · trivial
  · exact yields_scanMarkup _
  · exact (yields_true _).map fun _ _ => trivial
  · trivial
  · trivial
  · trivial
  · trivial
  · split <;> trivial

end Xml
end MarkupLint
