import MarkupLint.Proofs.Files.Inner

/-!
# Scans from directories with the same content

What inputs stand for below a directory depends on the content of the directory alone, as long as its
own name has no characters of patterns: scans from two such directories find the same files, in the same
order.
-/

namespace MarkupLint
namespace Files

open Host (IsPure Ends)

/-! ## Patterns below a place -/

theorem Pattern.isMagic_append (first second : String) :
    Pattern.isMagic (first ++ second) = (Pattern.isMagic first || Pattern.isMagic second) := by
  rw [Pattern.isMagic, String.toList_append, List.any_append]
  rfl

theorem Pattern.isMagic_intercalate
    {separator : String}
    (plain : Pattern.isMagic separator = false)
    (parts : List String) :
    Pattern.isMagic (String.intercalate separator parts) = parts.any Pattern.isMagic := by
  induction parts with
  | nil => rfl
  | cons part rest ih =>
    by_cases last : rest = []
    · subst last
      simp
    · rw [String.intercalate_cons_of_ne_nil last, isMagic_append, isMagic_append, plain, ih,
        Bool.or_false, List.any_cons]

theorem Pattern.isMagic_of_mem_ofText
    {input part : String}
    (literal : Pattern.isMagic input = false)
    (held : part ∈ (PathName.ofText input).parts) :
    Pattern.isMagic part = false := by
  rw [Pattern.isMagic, List.any_eq_false] at literal ⊢
  intro char inside
  exact literal char ((notMem_of_mem_partsOf (List.mem_of_mem_filter held)).2 inside)

/-- The text of a name is longer than that of the name above it. -/
theorem Glob.length_text_lt
    {root : Root}
    {parts : List String}
    {last : String}
    (absolute : PathName.isAbsolute ⟨root, parts⟩ = true)
    (proper : IsPart last) :
    (PathName.text ⟨root, parts⟩).toList.length <
      (PathName.text ⟨root, parts ++ [last]⟩).toList.length := by
  have some := List.length_pos_of_ne_nil proper.toList_ne_nil
  rw [PathName.text_append_singleton absolute, String.toList_append, List.length_append,
    PathName.leading]
  split
  · next none =>
    simp only at none
    rw [PathName.text_of_isAbsolute absolute, none, String.intercalate_nil, String.append_empty]
    omega
  · rw [String.toList_append, List.length_append]
    omega

namespace Setting

variable {content : Host} {inputs : List String} (setting : Setting content inputs)
  {above parts : List String} {last : String} {room : Nat}

theorem isMagic_text_below
    (plain : ∀ part ∈ setting.place, Pattern.isMagic part = false)
    (parts : List String) :
    Pattern.isMagic (below setting.place parts).text = parts.any Pattern.isMagic := by
  have slash : Pattern.isMagic "/" = false := by decide
  have above : setting.place.reverse.any Pattern.isMagic = false := by
    rw [List.any_eq_false]
    exact fun part held => Bool.eq_false_iff.mp (plain part (List.mem_reverse.mp held))
  rw [PathName.text_of_isAbsolute rfl, Pattern.isMagic_append, Pattern.isMagic_intercalate slash, below,
    List.any_append, above, Bool.false_or]
  exact congrArg (· || parts.any Pattern.isMagic) slash

section

variable (proper : ∀ part ∈ above ++ [last], IsPart part)

include proper

theorem isTidy_below_append :
    (⟨.slash, setting.place.reverse ++ above ++ [last]⟩ : PathName).IsTidy := by
  rw [List.append_assoc]
  intro part held
  rcases List.mem_append.mp held with held | held
  · exact Host.isTidy_pathName setting.isPure_place part held
  · exact proper part held

theorem splitLast_text_below :
    Glob.splitLast (below setting.place (above ++ [last])).text.toList =
      ((below setting.place above).text.toList, last.toList) := by
  have tidy := setting.isTidy_below_append proper
  rw [below, ← List.append_assoc]
  exact Glob.splitLast_text rfl tidy

theorem directoriesOf_below (plain : ∀ part ∈ setting.place, Pattern.isMagic part = false) :
    Glob.directoriesOf setting.host room (below setting.place (above ++ [last])).text.toList =
      if above.any Pattern.isMagic then
        Glob.expand setting.host true room (below setting.place above).text.toList
      else .ok [(below setting.place above).text] := by
  have shorter : (below setting.place above).text.toList ≠
      (below setting.place (above ++ [last])).text.toList := by
    rw [below, below, ← List.append_assoc]
    intro same
    have less := @Glob.length_text_lt .slash (setting.place.reverse ++ above) last rfl
      (proper last (by simp))
    rw [same] at less
    exact absurd less (Nat.lt_irrefl _)
  rw [Glob.directoriesOf, setting.splitLast_text_below proper]
  simp only [ne_eq, shorter, not_false_eq_true, true_and, String.ofList_toList,
    setting.isMagic_text_below plain]

theorem expand_below (onlyDirectories : Bool) :
    Glob.expand setting.host onlyDirectories (room + 1)
        (below setting.place (above ++ [last])).text.toList =
      (do
        let directories ← Glob.directoriesOf setting.host room
          (below setting.place (above ++ [last])).text.toList
        let found ← directories.mapM fun directory =>
          (Glob.inside setting.host onlyDirectories room last directory).map fun names =>
            names.map (Glob.joined directory)
        return found.flatten) := by
  rw [Glob.expand_succ, setting.splitLast_text_below proper]
  dsimp only
  rw [String.ofList_toList]
  rfl

end

end Setting

/-! ## What patterns stand for -/

/-- Names that parts of a pattern stand for, one behind the other. -/
def Instantiates (parts names : List String) : Prop :=
  ∃ chains, List.Forall₂ Fills parts chains ∧ names = chains.flatten

namespace Instantiates

variable {parts names chain : List String} {part : String}

theorem append_singleton
    (filled : Instantiates parts names)
    (fills : Fills part chain) :
    Instantiates (parts ++ [part]) (names ++ chain) := by
  obtain ⟨chains, each, rfl⟩ := filled
  exact ⟨chains ++ [chain], List.rel_append each (.cons fills .nil), by simp⟩

/-- Parts that are no patterns stand for themselves. -/
theorem of_literal (literal : ∀ part ∈ parts, Pattern.isMagic part = false) :
    Instantiates parts parts := by
  refine ⟨parts.map fun part => [part], ?_, by rw [← List.flatMap_def, List.flatMap_singleton']⟩
  refine List.forall₂_map_right_iff.mpr (List.forall₂_same.mpr fun part held => ?_)
  rw [Fills, literal part held]
  rfl

/-- A step up stands for itself. -/
theorem exists_front
    (filled : Instantiates parts names)
    {front behind : List String}
    (cut : names = front ++ ".." :: behind) :
    ∃ before after, parts = before ++ ".." :: after ∧ Instantiates before front := by
  obtain ⟨chains, each, rfl⟩ := filled
  induction each generalizing front with
  | nil => simp at cut
  | @cons part chain rest chains fills _ ih =>
    rw [List.flatten_cons] at cut
    rcases List.append_eq_append_iff.mp cut with ⟨more, rfl, others⟩ | ⟨more, rfl, others⟩
    · obtain ⟨before, after, rfl, chains, filled, rfl⟩ := ih others
      exact ⟨part :: before, after, rfl, chain :: chains, .cons fills filled, rfl⟩
    · cases more with
      | nil =>
        obtain ⟨before, after, rfl, chains, filled, none⟩ := @ih [] others.symm
        rw [List.append_nil] at fills
        refine ⟨part :: before, after, rfl, front :: chains, .cons fills filled, ?_⟩
        rw [List.flatten_cons, ← none, List.append_nil]
      | cons first more =>
        obtain ⟨rfl, -⟩ := List.cons_eq_cons.mp others
        unfold Fills at fills
        split at fills
        · exact absurd rfl (fills.1 ".." (by simp)).1.isBelow
        · rcases List.append_eq_singleton_iff.mp fills with ⟨rfl, same⟩ | ⟨-, none⟩
          · obtain ⟨rfl, -⟩ := List.cons_eq_cons.mp same
            exact ⟨[], rest, rfl, [], .nil, rfl⟩
          · contradiction

theorem count_eq (filled : Instantiates parts names) : names.count ".." = parts.count ".." := by
  obtain ⟨chains, each, rfl⟩ := filled
  induction each with
  | nil => rfl
  | @cons part chain rest chains fills _ ih =>
    rw [List.flatten_cons, List.count_append, ih, ← List.singleton_append, List.count_append]
    congr 1
    unfold Fills at fills
    split at fills
    · next magic =>
      have other : ".." ∉ [part] := by
        rw [List.mem_singleton]
        rintro rfl
        exact absurd magic (by decide)
      have none : ".." ∉ chain := fun held => (fills.1 ".." held).1.isBelow rfl
      rw [List.count_eq_zero.mpr other, List.count_eq_zero.mpr none]
    · rw [fills]

/-- A name is that of a part, or what a pattern stands for. -/
theorem of_mem (filled : Instantiates parts names) {name : String} (held : name ∈ names) :
    name ∈ parts ∨ IsPure [name] := by
  obtain ⟨chains, each, rfl⟩ := filled
  induction each with
  | nil => contradiction
  | cons fills _ ih =>
    rcases List.mem_append.mp held with inside | behind
    · unfold Fills at fills
      split at fills
      · exact .inr fun part alone => List.mem_singleton.mp alone ▸ fills.1 name inside
      · rw [fills, List.mem_singleton] at inside
        exact .inl (inside ▸ List.mem_cons_self)
    · exact (ih behind).imp_left (List.mem_cons_of_mem _)

end Instantiates

/-- An input that names something inside the directory from which it is read, whatever its patterns stand
for.  If it is no pattern, it comes to an end with no more links on the way than there is room for. -/
structure IsInner (content : Host) (input : String) : Prop where
  isRelative : (PathName.ofText input).isAbsolute = false
  isClean : '\x00' ∉ input.toList
  stays : ∀ front behind, (PathName.ofText input).parts = front ++ ".." :: behind →
    ∀ names, Instantiates front names →
      ∀ count turn, Ends content count [] names turn → turn ≠ []
  exists_ends : Pattern.isMagic input = false →
    ∃ count ≤ content.room.links, ∃ turn,
      Ends content count [] (PathName.ofText input).parts turn

namespace IsInner

variable {content : Host} {inputs parts names : List String} {input : String}

theorem isInward
    (inner : IsInner content input)
    (held : input ∈ inputs)
    (within : parts <+: (PathName.ofText input).parts)
    (filled : Instantiates parts names) :
    IsInward content inputs names := by
  have parted : ∀ part ∈ parts, IsPart part ∧ '\x00' ∉ part.toList := fun part among =>
    ⟨PathName.isTidy_ofText input part (within.subset among),
      PathName.notMem_of_mem_ofText inner.isClean (within.subset among)⟩
  have each : ∀ name ∈ names, IsPart name ∧ '\x00' ∉ name.toList := by
    intro name among
    rcases filled.of_mem among with part | pure
    · exact parted name part
    · exact ⟨Host.isTidy_pathName pure name (by simp [Location.pathName]), (pure name (by simp)).2.1⟩
  refine ⟨fun name among => (each name among).1, fun name among => (each name among).2, ?_, ?_⟩
  · intro front behind cut
    obtain ⟨before, after, rfl, others⟩ := filled.exists_front cut
    obtain ⟨rest, whole⟩ := within
    rw [List.append_assoc, List.cons_append] at whole
    exact inner.stays before (after ++ rest) whole.symm front others
  · exact ⟨input, held, filled.count_eq ▸ within.sublist.count_le ".."⟩

theorem join_eq (inner : IsInner content input) (place : Location) :
    place.pathName.join (.ofText input) = below place (PathName.ofText input).parts := by
  rw [PathName.join, inner.isRelative, if_neg Bool.false_ne_true]
  rfl

theorem patternOf_eq (inner : IsInner content input) (place : Location) :
    patternOf place input = (below place (PathName.ofText input).parts).text := by
  simp only [patternOf, inner.isRelative, Bool.false_eq_true, if_false, inner.join_eq]

/-- A pattern has parts. -/
theorem parts_ne_nil (isMagic : Pattern.isMagic input = true) : (PathName.ofText input).parts ≠ [] := by
  obtain ⟨char, held, special⟩ := List.any_eq_true.mp isMagic
  have others : "*?[".toList.all fun char => char ≠ '/' ∧ char ∉ "".toList ∧ char ∉ ".".toList := by
    decide
  have plain := List.all_eq_true.mp others char (List.contains_iff_mem.mp special)
  obtain ⟨between, some, more⟩ := of_decide_eq_true plain
  obtain ⟨piece, inside, among⟩ := exists_mem_splitAt held between
  have telling : PathName.isTelling (String.ofList piece) = true := by
    rw [PathName.isTelling, Bool.and_eq_true, bne_iff_ne, bne_iff_ne]
    have spelled : char ∈ (String.ofList piece).toList := by rwa [String.toList_ofList]
    exact ⟨fun same => some (same ▸ spelled), fun same => more (same ▸ spelled)⟩
  exact List.ne_nil_of_mem (List.mem_filter.mpr ⟨List.mem_map_of_mem inside, telling⟩)

end IsInner

/-! ## The same names in two settings -/

/-- Names below two places with the same parts. -/
def Twins (place other : Location) (holds : List String → Prop) (name twin : PathName) : Prop :=
  ∃ parts, holds parts ∧ name = below place parts ∧ twin = below other parts

theorem Twins.biUnique (place other : Location) (holds : List String → Prop) :
    Relator.BiUnique (Twins place other holds) := by
  constructor
  · rintro _ _ _ ⟨parts, -, rfl, rfl⟩ ⟨others, -, rfl, same⟩
    rw [below, below, PathName.mk.injEq, List.append_cancel_left_eq] at same
    rw [same.2]
  · rintro _ _ _ ⟨parts, -, rfl, rfl⟩ ⟨others, -, same, rfl⟩
    rw [below, below, PathName.mk.injEq, List.append_cancel_left_eq] at same
    rw [same.2]

/-- Texts of names below two places with the same parts. -/
def TextTwins
    (place other : Location)
    (holds : List String → Bool → Prop)
    (text twin : String) : Prop :=
  ∃ parts slash, holds parts slash ∧
    text = spelled place parts slash ∧ twin = spelled other parts slash

theorem TextTwins.imp
    {place other : Location}
    {holds weaker : List String → Bool → Prop}
    (implies : ∀ parts slash, holds parts slash → weaker parts slash)
    {text twin : String}
    (twins : TextTwins place other holds text twin) :
    TextTwins place other weaker text twin := by
  obtain ⟨parts, slash, held, same⟩ := twins
  exact ⟨parts, slash, implies parts slash held, same⟩

/-- Parts of a name of something inside a directory. -/
structure Stands (content : Host) (inputs parts : List String) : Prop where
  isInward : IsInward content inputs parts
  exists_walk : ∃ turn, content.root.host.walk false linkLimit [] parts = .ok turn

/-- Parts of a name that matches a pattern. -/
structure Matches (content : Host) (inputs parts : List String) (slash : Bool) : Prop
    extends Stands content inputs parts where
  isBelow : parts = [] → slash = true

theorem joined_spelled_intercalate
    {content : Host}
    {inputs : List String}
    {place : Location}
    {parts chain : List String}
    (above : IsPure place)
    (inner : IsInward content inputs parts)
    (slash : Bool) :
    Glob.joined (spelled place parts slash) (String.intercalate "/" chain) =
      spelled place (parts ++ chain) (decide (chain = [])) := by
  rw [joined_spelled above inner]
  by_cases none : chain = []
  · rw [none, List.append_nil, decide_eq_true rfl, String.intercalate_nil, leading_append_empty]
  · rw [decide_eq_false none, leading_append_intercalate place parts none]

section

variable {content : Host} {inputs : List String} (first second : Setting content inputs)
  {onlyDirectories : Bool} {above parts : List String} {last input : String} {room : Nat}
  (held : input ∈ inputs) (inner : IsInner content input)

include held inner

/-- What matches the last part of a pattern inside a directory is the same in both settings. -/
theorem inside_agree
    (within : above ++ [last] <+: (PathName.ofText input).parts)
    {text twin : String}
    (same : TextTwins first.place second.place (fun names _ => Instantiates above names) text twin)
    (onlyDirectories : Bool)
    (room : Nat) :
    Agree (List.Forall₂ (TextTwins first.place second.place fun names slash =>
        Matches content inputs names slash ∧ Instantiates (above ++ [last]) names))
      ((Glob.inside first.host onlyDirectories room last text).map fun names =>
        names.map (Glob.joined text))
      ((Glob.inside second.host onlyDirectories room last twin).map fun names =>
        names.map (Glob.joined twin)) := by
  obtain ⟨names, slash, filled, rfl, rfl⟩ := same
  have further : ∀ {chain}, Fills last chain → IsInward content inputs (names ++ chain) :=
    fun fills => inner.isInward held within (filled.append_singleton fills)
  have inward := inner.isInward held ((List.prefix_append above [last]).trans within) filled
  have proper := PathName.isTidy_ofText input last (within.subset (by simp))
  have literal : Pattern.isMagic last = false → IsInward content inputs (names ++ [last]) := by
    intro literal
    refine further ?_
    rw [Fills, literal]
    rfl
  rw [inside_spelled_eq first second inward slash onlyDirectories room literal]
  cases outcome : Glob.inside second.host onlyDirectories room last
      (spelled second.place names slash) with
  | error fault => exact .error fault fault
  | ok found =>
    refine .ok (List.forall₂_map_left_iff.mpr (List.forall₂_map_right_iff.mpr
      (List.forall₂_same.mpr fun name among => ?_)))
    obtain ⟨chain, rfl, fills, reached⟩ :=
      second.exists_chain_of_mem_inside inward proper literal outcome among
    refine ⟨names ++ chain, decide (chain = []),
      ⟨⟨⟨further fills, reached⟩, fun none => ?_⟩, filled.append_singleton fills⟩, ?_, ?_⟩
    · exact decide_eq_true (List.append_eq_nil_iff.mp none).2
    · exact joined_spelled_intercalate first.isPure_place inward slash
    · exact joined_spelled_intercalate second.isPure_place inward slash

/-- What matches a pattern below a directory is the same in both settings. -/
theorem expand_agree
    (plain : ∀ part ∈ first.place, Pattern.isMagic part = false)
    (plainToo : ∀ part ∈ second.place, Pattern.isMagic part = false)
    (within : parts <+: (PathName.ofText input).parts)
    (nonempty : parts ≠ []) :
    Agree (List.Forall₂ (TextTwins first.place second.place fun names slash =>
        Matches content inputs names slash ∧ Instantiates parts names))
      (Glob.expand first.host onlyDirectories room (below first.place parts).text.toList)
      (Glob.expand second.host onlyDirectories room (below second.place parts).text.toList) := by
  induction room generalizing onlyDirectories parts with
  | zero => exact .error _ _
  | succ room ih =>
    obtain ⟨above, last, rfl⟩ := (List.eq_nil_or_concat parts).resolve_left nonempty
    rw [List.concat_eq_append] at within ⊢
    have proper : ∀ part ∈ above ++ [last], IsPart part := fun part among =>
      PathName.isTidy_ofText input part (within.subset among)
    have directories : Agree
        (List.Forall₂ (TextTwins first.place second.place fun names _ => Instantiates above names))
        (Glob.directoriesOf first.host room (below first.place (above ++ [last])).text.toList)
        (Glob.directoriesOf second.host room (below second.place (above ++ [last])).text.toList) := by
      rw [first.directoriesOf_below proper plain, second.directoriesOf_below proper plainToo]
      split
      · next magic =>
        have some : above ≠ [] := by
          rintro rfl
          contradiction
        have higher := @ih true above ((List.prefix_append above [last]).trans within) some
        refine higher.imp fun texts others paired => paired.imp ?_
        exact fun _ _ ⟨names, slash, held, same⟩ => ⟨names, slash, held.2, same⟩
      · next literal =>
        rw [Bool.not_eq_true, List.any_eq_false] at literal
        exact .ok (.cons ⟨above, false,
          .of_literal fun part among => Bool.eq_false_iff.mpr (literal part among), rfl, rfl⟩ .nil)
    rw [first.expand_below proper, second.expand_below proper]
    refine directories.bind fun texts others paired => ?_
    have found := Agree.mapM paired fun _ _ same =>
      inside_agree first second held inner within same onlyDirectories room
    exact found.bind fun lists twins same => .ok (List.rel_flatten same)

end

/-! ## The same order -/

theorem lt_append_left_iff (front first second : String) :
    front ++ first < front ++ second ↔ first < second := by
  have characters : ∀ front : List Char,
      front ++ first.toList < front ++ second.toList ↔ first.toList < second.toList := by
    intro front
    induction front with
    | nil => rfl
    | cons char rest ih => rw [List.cons_append, List.cons_append, List.cons_lt_cons_iff]; simp [ih]
  rw [String.lt_iff_toList_lt, String.lt_iff_toList_lt, String.toList_append, String.toList_append,
    characters]

/-- What stands behind the name of a place. -/
theorem exists_spelled_eq_append
    {parts : List String}
    {slash : Bool}
    (inside : parts = [] → slash = true) :
    ∃ tail, ∀ place, spelled place parts slash = (below place []).leading ++ tail := by
  by_cases none : parts = []
  · exact ⟨"", fun place => by rw [leading_append_empty, none, inside none]⟩
  · have text_eq : ∀ place, (below place parts).text = (below place []).leading ++
        String.intercalate "/" parts := fun place => by
      rw [leading_append_intercalate place [] none]
      rfl
    cases slash with
    | false => exact ⟨_, text_eq⟩
    | true =>
      refine ⟨String.intercalate "/" parts ++ "/", fun place => ?_⟩
      have more : (below place parts).parts ≠ [] := List.append_ne_nil_of_right_ne_nil _ none
      rw [spelled, if_pos rfl, PathName.leading, if_neg more, text_eq, String.append_assoc]

section

variable {content : Host} {inputs : List String} {place other : Location}

theorem TextTwins.lt_iff
    {first second twin next : String}
    (one : TextTwins place other (Matches content inputs) first twin)
    (two : TextTwins place other (Matches content inputs) second next) :
    first < second ↔ twin < next := by
  obtain ⟨parts, slash, held, rfl, rfl⟩ := one
  obtain ⟨others, ends, holds, rfl, rfl⟩ := two
  obtain ⟨tail, first_eq⟩ := exists_spelled_eq_append held.isBelow
  obtain ⟨rest, second_eq⟩ := exists_spelled_eq_append holds.isBelow
  rw [first_eq, first_eq, second_eq, second_eq, lt_append_left_iff, lt_append_left_iff]

theorem forall₂_insertText
    {text twin : String}
    (same : TextTwins place other (Matches content inputs) text twin)
    {sorted twins : List String}
    (paired : List.Forall₂ (TextTwins place other (Matches content inputs)) sorted twins) :
    List.Forall₂ (TextTwins place other (Matches content inputs)) (insertText text sorted)
      (insertText twin twins) := by
  induction paired with
  | nil => exact .cons same .nil
  | cons first behind ih =>
    rw [insertText, insertText]
    simp only [same.lt_iff first]
    split
    · exact .cons same (.cons first behind)
    · exact .cons first ih

theorem forall₂_sortTexts
    {texts twins : List String}
    (paired : List.Forall₂ (TextTwins place other (Matches content inputs)) texts twins) :
    List.Forall₂ (TextTwins place other (Matches content inputs)) (sortTexts texts)
      (sortTexts twins) := by
  refine List.rel_foldl ?_ .nil paired
  intro sorted inserted before text twin same
  exact forall₂_insertText same before


theorem comesBefore_append_left (front first second : List String) :
    comesBefore (front ++ first) (front ++ second) = comesBefore first second := by
  induction front with
  | nil => rfl
  | cons part rest ih =>
    rw [List.cons_append, List.cons_append, comesBefore, ih]
    simp

/-- Parts of names below two places. -/
def PartTwins (place other : Location) (holds : List String → Prop) (whole twin : List String) : Prop :=
  ∃ parts, holds parts ∧ whole = place.reverse ++ parts ∧ twin = other.reverse ++ parts

variable {holds : List String → Prop}

theorem PartTwins.comesBefore_eq
    {first second twin next : List String}
    (one : PartTwins place other holds first twin)
    (two : PartTwins place other holds second next) :
    comesBefore first second = comesBefore twin next := by
  obtain ⟨parts, -, rfl, rfl⟩ := one
  obtain ⟨others, -, rfl, rfl⟩ := two
  rw [comesBefore_append_left, comesBefore_append_left]

theorem forall₂_insertParts
    {parts twin : List String}
    (same : PartTwins place other holds parts twin)
    {sorted twins : List (List String)}
    (paired : List.Forall₂ (PartTwins place other holds) sorted twins) :
    List.Forall₂ (PartTwins place other holds) (insertParts parts sorted)
      (insertParts twin twins) := by
  induction paired with
  | nil => exact .cons same .nil
  | cons first behind ih =>
    rw [insertParts, insertParts, same.comesBefore_eq first]
    split
    · exact .cons same (.cons first behind)
    · exact .cons first ih

theorem forall₂_sortParts
    {names twins : List (List String)}
    (paired : List.Forall₂ (PartTwins place other holds) names twins) :
    List.Forall₂ (PartTwins place other holds) (sortParts names) (sortParts twins) := by
  refine List.rel_foldl ?_ .nil paired
  intro sorted inserted before parts twin same
  exact forall₂_insertParts same before

end

/-! ## The same files -/

/-- Parts of a name that comes to an end inside a directory, with no more links on the way than there is
room for. -/
structure Settles (content : Host) (inputs parts : List String) : Prop where
  isInward : IsInward content inputs parts
  exists_ends : ∃ count ≤ content.room.links, ∃ turn, Ends content count [] parts turn

section

variable {content : Host} {inputs : List String} {parts : List String}

theorem Setting.locate_text_below
    (setting : Setting content inputs)
    (inner : IsInward content inputs parts)
    (short : (below setting.place parts).text.utf8ByteSize ≤ nameLimit) :
    setting.host.locate true (below setting.place parts).text =
      (content.walk true linkLimit [] parts).map (· ++ setting.place) := by
  have clean := notMem_text_below setting.isPure_place inner
  have walked := setting.walk_spelled inner false true
  rw [spelled, if_neg Bool.false_ne_true, trailing, if_neg Bool.false_ne_true, List.append_nil] at walked
  rw [Host.locate, if_neg (by simpa using clean), if_neg (Nat.not_lt.mpr short), walked]

variable (first second : Setting content inputs)

section

variable
  (inner : IsInward content inputs parts)
  (short : (below first.place parts).text.utf8ByteSize ≤ nameLimit)
  (shortToo : (below second.place parts).text.utf8ByteSize ≤ nameLimit)

include inner short shortToo

/-- Short names inside lead to the same in both settings. -/
theorem find_text_below_eq :
    first.host.find (below first.place parts).text =
      second.host.find (below second.place parts).text := by
  rw [Host.find, Host.find, first.locate_text_below inner short,
    second.locate_text_below inner shortToo]
  cases content.walk true linkLimit [] parts with
  | error fault => rfl
  | ok turn => simp only [Except.map, first.holds.at?_append, second.holds.at?_append]

theorem entriesAt_text_below_eq :
    first.host.entriesAt (below first.place parts).text =
      second.host.entriesAt (below second.place parts).text := by
  rw [Host.entriesAt, Host.entriesAt, first.locate_text_below inner short,
    second.locate_text_below inner shortToo]
  cases content.walk true linkLimit [] parts with
  | error fault => rfl
  | ok turn =>
    simp only [Except.map, first.holds.at?_append, second.holds.at?_append, first.holds.lists_eq,
      second.holds.lists_eq]

end

namespace Stands

variable (stands : Stands content inputs parts)

include stands

theorem isShort (setting : Setting content inputs) :
    (below setting.place parts).text.utf8ByteSize ≤ nameLimit := by
  obtain ⟨inner, turn, walked⟩ := stands
  exact setting.utf8ByteSize_spelled_le inner walked false

theorem find_eq :
    first.host.find (below first.place parts).text =
      second.host.find (below second.place parts).text :=
  find_text_below_eq first second stands.isInward (stands.isShort first) (stands.isShort second)

end Stands

theorem leadsTo_agree
    {host other : Host}
    {path twin : String}
    (same : host.find path = other.find twin)
    (kind : FileNode → Bool)
    (written otherwise : String) :
    Agree Eq (host.leadsTo kind path written) (other.leadsTo kind twin otherwise) := by
  rw [Host.leadsTo, Host.leadsTo, same]
  cases other.find twin with
  | ok node => exact .ok rfl
  | error fault =>
    dsimp only
    split
    · exact .ok rfl
    · exact .error _ _

/-- A name of something is kept in both settings or in neither. -/
theorem keep_agree
    {name twin : PathName}
    (same : Twins first.place second.place (Stands content inputs) name twin) :
    Agree (List.Forall₂ (Twins first.place second.place (Settles content inputs)))
      (do return if ← first.host.isFileAt name.text then [name] else [])
      (do return if ← second.host.isFileAt twin.text then [twin] else []) := by
  obtain ⟨parts, stands, rfl, rfl⟩ := same
  have known : Agree Eq (first.host.isFileAt (below first.place parts).text)
      (second.host.isFileAt (below second.place parts).text) :=
    leadsTo_agree (stands.find_eq first second) FileNode.isFile _ _
  refine known.and_eq.bind fun isFile _ ⟨same, itself, _⟩ => ?_
  subst same
  cases isFile with
  | false => exact .ok .nil
  | true =>
    obtain ⟨node, found, -⟩ := Host.leadsTo_eq_true_iff.mp itself
    have leads : Leads content parts false node :=
      (first.find_spelled_eq_ok_iff stands.isInward).mp
        (by rwa [spelled, if_neg Bool.false_ne_true])
    obtain ⟨turn, walked, -⟩ := leads
    obtain ⟨count, few, ends⟩ :=
      Ends.of_walk first.isTree_content.isProper (exists_walk_of_trailing walked) rfl
    exact .ok (.cons ⟨parts, ⟨stands.isInward, count, few.trans content.room.followed, turn, ends⟩,
      rfl, rfl⟩ .nil)

/-- The same names of files are kept in both settings. -/
theorem onlyFiles_agree
    {names twins : List PathName}
    (paired : List.Forall₂ (Twins first.place second.place (Stands content inputs)) names twins) :
    Agree (List.Forall₂ (Twins first.place second.place (Settles content inputs)))
      (onlyFiles first.host names) (onlyFiles second.host twins) :=
  (Agree.mapM paired fun _ _ same => keep_agree first second same).bind
    fun _ _ same => .ok (List.rel_flatten same)

theorem below_below (place : Location) (parts chain : List String) :
    (below place parts).below chain = below place (parts ++ chain) := by
  rw [PathName.below, below, below, List.append_assoc]

/-- The same drawings are found in a directory and below it in both settings. -/
theorem drawingsIn_agree
    (inner : IsInward content inputs parts)
    (short : (below first.place parts).text.utf8ByteSize ≤ nameLimit)
    (shortToo : (below second.place parts).text.utf8ByteSize ≤ nameLimit)
    (room : Nat) :
    Agree (List.Forall₂ (Twins first.place second.place (Settles content inputs)))
      (drawingsIn first.host room (below first.place parts))
      (drawingsIn second.host room (below second.place parts)) := by
  induction room generalizing parts with
  | zero => exact .error _ _
  | succ room ih =>
    rw [drawingsIn, drawingsIn, entriesAt_text_below_eq first second inner short shortToo]
    cases known : second.host.entriesAt (below second.place parts).text with
    | error fault => cases fault <;> first | exact .ok .nil | exact .error _ _
    | ok entries =>
      have lists : Lists content parts false entries :=
        (second.entriesAt_spelled_eq_ok_iff inner).mp (by rwa [spelled, if_neg Bool.false_ne_true])
      have stands : ∀ entry ∈ entries, Stands content inputs (parts ++ [entry.1]) :=
        fun entry held => ⟨inner.append_singleton (second.isPlain_of_mem_lists lists held),
          second.exists_walk_of_mem_lists lists held⟩
      have barred : entries.takeWhile (fun entry =>
            !isBarrier first.host (below first.place parts) entry) =
          entries.takeWhile fun entry => !isBarrier second.host (below second.place parts) entry := by
        refine takeWhile_congr fun entry held => ?_
        have same := (stands entry held).find_eq first second
        obtain ⟨name, node⟩ := entry
        cases node with
        | link target => simp only [isBarrier, below_below, same]
        | _ => rfl
      have own : List.Forall₂ (Twins first.place second.place (Stands content inputs))
          ((entries.filter fun entry => (Pattern.ofText "*.svg").holds entry.1).map fun entry =>
            (below first.place parts).below [entry.1])
          ((entries.filter fun entry => (Pattern.ofText "*.svg").holds entry.1).map fun entry =>
            (below second.place parts).below [entry.1]) := by
        refine List.forall₂_map_left_iff.mpr (List.forall₂_map_right_iff.mpr
          (List.forall₂_same.mpr fun entry held => ?_))
        exact ⟨_, stands entry (List.mem_of_mem_filter held), below_below _ _ _, below_below _ _ _⟩
      dsimp only
      rw [barred]
      refine (onlyFiles_agree first second own).bind fun files twins same => ?_
      refine (Agree.mapM_same fun entry held => ?_).bind fun deeper others below =>
        .ok (List.rel_append same (List.rel_flatten below))
      have inside := stands entry ((List.takeWhile_sublist _).subset held)
      rw [below_below, below_below]
      obtain ⟨name, node⟩ := entry
      cases node with
      | directory below => exact ih inside.isInward (inside.isShort first) (inside.isShort second)
      | link target =>
        exact (leadsTo_agree (inside.find_eq first second) FileNode.isDirectory _ _).map
          fun _ _ _ => .nil
      | file bytes => exact .ok .nil

/-- The same drawings are below a directory in both settings, in the same order. -/
theorem drawingsBelow_agree
    (inner : IsInward content inputs parts)
    (short : (below first.place parts).text.utf8ByteSize ≤ nameLimit)
    (shortToo : (below second.place parts).text.utf8ByteSize ≤ nameLimit) :
    Agree (List.Forall₂ (Twins first.place second.place (Settles content inputs)))
      (drawingsBelow first.host (below first.place parts))
      (drawingsBelow second.host (below second.place parts)) := by
  rw [drawingsBelow, drawingsBelow, Setting.room_eq first second]
  refine (drawingsIn_agree first second inner short shortToo _).bind fun drawings twins paired => ?_
  have parted : List.Forall₂ (PartTwins first.place second.place (Settles content inputs))
      (drawings.map (·.parts)) (twins.map (·.parts)) := by
    refine List.forall₂_map_left_iff.mpr (List.forall₂_map_right_iff.mpr (paired.imp ?_))
    rintro _ _ ⟨parts, settles, rfl, rfl⟩
    exact ⟨parts, settles, rfl, rfl⟩
  refine .ok (List.forall₂_map_left_iff.mpr (List.forall₂_map_right_iff.mpr
    ((forall₂_sortParts parted).imp ?_)))
  rintro _ _ ⟨parts, settles, rfl, rfl⟩
  exact ⟨parts, settles, rfl, rfl⟩

end

/-! ## The same inputs -/

section

variable {content : Host} {inputs : List String} (first second : Setting content inputs)
  {parts : List String} {input : String}

theorem ofText_spelled
    {place : Location}
    (above : IsPure place)
    (inner : IsInward content inputs parts)
    (slash : Bool) :
    PathName.ofText (spelled place parts slash) = below place parts := by
  have tidy := isTidy_below_place above inner
  unfold spelled
  split
  · exact PathName.ofText_leading rfl tidy
  · exact PathName.ofText_text rfl tidy

theorem Setting.resolve_below
    (setting : Setting content inputs)
    (inner : IsInward content inputs parts)
    {count : Nat}
    (few : count ≤ content.room.links)
    {turn : Location}
    (ends : Ends content count [] parts turn) :
    setting.host.resolve (below setting.place parts) = .ok (below setting.place turn.reverse) := by
  obtain ⟨entries, known⟩ := setting.isTree_content.exists_entries
  have directory : setting.host.root.at? setting.place = some (.directory entries) :=
    setting.holds.there.trans known
  have outside := Host.ends_pathName (Host.isFree_of_at? directory (by simp)) setting.isPure_place
  have inside := ends.append_place setting.isEnclosed setting.holds inner.stays
  have whole : Ends setting.host count [] (below setting.place parts).parts (turn ++ setting.place) := by
    have both := outside.append inside
    rwa [Nat.zero_add] at both
  rw [← setting.holds.room_eq] at few
  rw [(whole.resolve_cases setting.isTree rfl (isTidy_below_place setting.isPure_place inner)).resolve_right
    fun many => absurd many.1 (Nat.not_lt.mpr few)]
  rw [Location.pathName, below, List.reverse_append]

/-- An input stands for the same names in both settings. -/
theorem expandInput_agree (held : input ∈ inputs) (inner : IsInner content input) :
    Agree (List.Forall₂ (Twins first.place second.place (Settles content inputs)))
      (expandInput first.host first.place.pathName input).result
      (expandInput second.host second.place.pathName input).result := by
  cases isMagic : Pattern.isMagic input with
  | true =>
    rw [expandInput_of_isMagic isMagic, expandInput_of_isMagic isMagic, glob, glob,
      inner.patternOf_eq, inner.patternOf_eq, Setting.room_eq first second]
    have expanded := @expand_agree _ _ first second false _ input second.host.room.directories held
      inner (first.isPlain input held isMagic) (second.isPlain input held isMagic) List.prefix_rfl
      (IsInner.parts_ne_nil isMagic)
    have matched := expanded.imp fun _ _ paired =>
      paired.imp fun _ _ twins => TextTwins.imp (fun _ _ => And.left) twins
    have sorted := matched.map fun _ _ paired => forall₂_sortTexts paired
    refine sorted.bind fun texts twins paired => onlyFiles_agree first second ?_
    refine List.forall₂_map_left_iff.mpr (List.forall₂_map_right_iff.mpr (paired.imp ?_))
    rintro _ _ ⟨names, slash, known, rfl, rfl⟩
    exact ⟨names, known.toStands, ofText_spelled first.isPure_place known.isInward slash,
      ofText_spelled second.isPure_place known.isInward slash⟩
  | false =>
    have inward := inner.isInward held List.prefix_rfl
      (.of_literal fun part among => Pattern.isMagic_of_mem_ofText isMagic among)
    have short := first.fits input held isMagic
    have shortToo := second.fits input held isMagic
    rw [expandInput_of_isPlain isMagic, expandInput_of_isPlain isMagic, inner.join_eq, inner.join_eq]
    have known : Agree Eq
        (first.host.isDirectoryAt (below first.place (PathName.ofText input).parts).text)
        (second.host.isDirectoryAt (below second.place (PathName.ofText input).parts).text) :=
      leadsTo_agree (find_text_below_eq first second inward short shortToo)
        FileNode.isDirectory _ _
    refine known.bind fun isDirectory _ same => ?_
    subst same
    cases isDirectory with
    | true => exact drawingsBelow_agree first second inward short shortToo
    | false => exact .ok (.cons ⟨_, ⟨inward, inner.exists_ends isMagic⟩, rfl, rfl⟩ .nil)

/-- An input contributes the same names in both settings. -/
theorem contribution_agree (held : input ∈ inputs) (inner : IsInner content input) :
    Agree (List.Forall₂ (Twins first.place second.place IsPure))
      (contribution first.host first.place.pathName input)
      (contribution second.host second.place.pathName input) := by
  refine (expandInput_agree first second held inner).bind fun names twins paired => ?_
  refine Agree.mapM paired fun _ _ same => ?_
  obtain ⟨parts, ⟨inward, count, few, turn, ends⟩, rfl, rfl⟩ := same
  rw [first.resolve_below inward few ends, second.resolve_below inward few ends]
  have reached := ends.isPure (fun part held => (inward.isPart part held).isWhole)
    fun _ held => nomatch held
  exact .ok ⟨turn.reverse, fun part held => reached part (List.mem_reverse.mp held), rfl, rfl⟩

/-- Scans from two directories with the same content find the same files, in the same order, if the names
of the directories have no characters of patterns. -/
theorem scan_relocation (inner : ∀ input ∈ inputs, IsInner content input) :
    Agree (List.Forall₂ (Twins first.place second.place IsPure))
      (scan first.host inputs [] first.base).result (scan second.host inputs [] second.base).result := by
  rw [scan_result_of_resolve first.resolve_eq, scan_result_of_resolve second.resolve_eq]
  have contributed := Agree.mapM_same fun input held =>
    contribution_agree first second held (inner input held)
  refine contributed.map fun lists twins paired => ?_
  have all : ∀ base names, selected [] base names = names.eraseDups := fun base names =>
    List.filter_eq_self.mpr fun _ _ => rfl
  rw [all, all]
  exact Table.forall₂_eraseDups (Twins.biUnique _ _ _) (List.rel_flatten paired)

end

/-! ## A drawing in directories with different names -/

/-- A directory with a drawing and an empty directory. -/
def gallery : Host := FileNode.host (.directory [("a.svg", .file []), ("b", .directory [])])

/-- A tree with this directory under a name. -/
def housing (name : String) : Host := FileNode.host (.directory [(name, gallery.root)])

theorem at?_gallery
    {location : Location}
    {node : FileNode}
    (there : gallery.root.at? location = some node) :
    location = [] ∧ node = gallery.root ∨ location = ["a.svg"] ∧ node = .file [] ∨
      location = ["b"] ∧ node = .directory [] := by
  induction location generalizing node with
  | nil => exact .inl ⟨rfl, (Option.some.inj there).symm⟩
  | cons part above ih =>
    obtain ⟨entries, parent, known⟩ := FileNode.exists_entries_of_at?_cons there
    rcases ih parent with ⟨rfl, same⟩ | ⟨-, other⟩ | ⟨-, same⟩
    · cases same
      rw [Table.value?, List.lookup_cons, List.lookup_cons, List.lookup_nil] at known
      split at known
      · next here => exact .inr (.inl ⟨by rw [beq_iff_eq.mp here], (Option.some.inj known).symm⟩)
      · split at known
        · next here => exact .inr (.inr ⟨by rw [beq_iff_eq.mp here], (Option.some.inj known).symm⟩)
        · contradiction
    · contradiction
    · cases same
      contradiction

theorem linkAt?_gallery (location : Location) : gallery.linkAt? location = none := by
  rw [Option.eq_none_iff_forall_ne_some]
  intro target known
  have there := (Host.linkAt?_eq_some_iff.mp known).1
  rcases at?_gallery there with ⟨-, other⟩ | ⟨-, other⟩ | ⟨-, other⟩ <;> contradiction

theorem isEnclosed_gallery : gallery.IsEnclosed := by
  intro part location target known
  rw [linkAt?_gallery] at known
  contradiction

theorem parts_of_walk_gallery
    {parts : List String}
    {links : Nat}
    {turn : Location}
    (proper : ∀ part ∈ parts, IsPart part)
    (below : ".." ∉ parts)
    (walked : gallery.walk false links [] parts = .ok turn) :
    parts = [] ∨ parts = ["a.svg"] ∨ parts = ["b"] := by
  have steps : ∀ part ∈ parts, Host.IsStep part := fun part held =>
    ⟨not_or.mpr (proper part held).ne, fun same => below (same ▸ held)⟩
  cases parts with
  | nil => exact .inl rfl
  | cons part rest =>
    obtain ⟨step, steps⟩ := List.forall_mem_cons.mp steps
    obtain ⟨searched, short, node, there⟩ := Host.exists_entry_of_walk_cons step walked
    have onward : rest ≠ [] → ∃ other node, gallery.root.at? [other, part] = some node := by
      intro nonempty
      obtain ⟨other, rest, rfl⟩ := List.exists_cons_of_ne_nil nonempty
      have unlinked : ∀ target, node ≠ .link target := by
        rintro target rfl
        rcases at?_gallery there with ⟨-, other⟩ | ⟨-, other⟩ | ⟨-, other⟩ <;> contradiction
      rw [Host.walk_enter step searched short there unlinked] at walked
      obtain ⟨-, -, entry, further⟩ :=
        Host.exists_entry_of_walk_cons (steps other List.mem_cons_self) walked
      exact ⟨other, entry, further⟩
    have last : rest = [] := by
      by_contra nonempty
      obtain ⟨other, entry, further⟩ := onward nonempty
      rcases at?_gallery further with ⟨none, -⟩ | ⟨none, -⟩ | ⟨none, -⟩ <;> simp at none
    rw [last]
    rcases at?_gallery there with ⟨none, -⟩ | ⟨same, -⟩ | ⟨same, -⟩
    · contradiction
    · exact .inr (.inl same)
    · exact .inr (.inr same)

theorem parts_of_inward_gallery
    {inputs parts : List String}
    (inner : IsInward gallery inputs parts)
    (few : parts.count ".." ≤ 1)
    {turn : Location}
    (walked : gallery.walk false linkLimit [] parts = .ok turn) :
    parts ∈ [[], ["a.svg"], ["b"], ["b", ".."], ["b", "..", "a.svg"], ["b", "..", "b"]] := by
  by_cases below : ".." ∈ parts
  · obtain ⟨front, behind, rfl, first⟩ := List.eq_append_cons_of_mem below
    obtain ⟨properFront, properBehind⟩ := List.forall_mem_append.mp inner.isPart
    have second : ".." ∉ behind := by
      rw [List.count_append, List.count_cons_self] at few
      exact List.count_eq_zero.mp (by omega)
    obtain ⟨mid, reached, left, fewer, onward⟩ :=
      Host.exists_walk_of_append walked (List.cons_ne_nil _ _)
    obtain ⟨other, -, unfollowed, -⟩ :=
      Host.exists_walk_unfollowed (FileNode.at?_nil gallery.root) reached
    obtain ⟨entries, above⟩ := Host.exists_entries_of_walk_cons onward
    have step : Host.IsStep "a.svg" ∧ Host.IsStep "b" := by decide
    have drawing : gallery.root.at? ["a.svg"] = some (.file []) := rfl
    have directory : gallery.root.at? ["b"] = some (.directory []) := rfl
    rcases parts_of_walk_gallery properFront first unfollowed with rfl | rfl | rfl
    · exact absurd rfl (inner.stays [] behind rfl 0 [] (.stop []))
    · rw [Host.walk_enter step.1 rfl (by decide) drawing (by simp), Host.walk] at reached
      cases reached
      cases drawing.symm.trans above
    · rw [Host.walk_enter step.2 rfl (by decide) directory (by simp), Host.walk] at reached
      cases reached
      rw [Host.walk_up directory (by decide)] at onward
      have rest := parts_of_walk_gallery (List.forall_mem_cons.mp properBehind).2 second onward
      rcases rest with rfl | rfl | rfl <;> simp
  · rcases parts_of_walk_gallery inner.isPart below walked with rfl | rfl | rfl <;> simp

theorem isTree_housing {name : String} (plain : IsPlain name) : (housing name).root.IsTree where
  isProper := by
    have inside : IsPlain "a.svg" ∧ IsPlain "b" := by decide
    simp [housing, gallery, FileNode.host, FileNode.isProper, FileNode.areProper, Table.keys, plain,
      inside]
  isDirectory := rfl

theorem at?_housing (name : String) : (housing name).root.at? [name] = some gallery.root :=
  FileNode.at?_cons rfl name |>.trans (by simp [Table.value?])

theorem resolve_housing {name : String} (plain : IsPlain name) :
    (housing name).resolve ⟨.slash, [name]⟩ = .ok (Location.pathName [name]) :=
  Host.resolve_entry rfl rfl plain (at?_housing name) (by simp [gallery, FileNode.host])

theorem holds_housing (name : String) : (housing name).Holds [name] gallery where
  there := at?_housing name
  reached := rfl
  lists_eq _ := rfl
  searches_eq _ := rfl
  room_eq := rfl

theorem utf8ByteSize_leading_gallery
    {name : String}
    (plain : IsPlain name)
    {parts : List String}
    (known : parts ∈ [[], ["a.svg"], ["b"], ["b", ".."], ["b", "..", "a.svg"], ["b", "..", "b"]]) :
    (below [name] parts).leading.utf8ByteSize ≤ nameLimit := by
  have short := plain.isShort
  have small : (String.intercalate "/" parts).utf8ByteSize ≤ 10 := by
    revert parts
    decide
  have spelled : (below [name] parts).leading.utf8ByteSize ≤
      "/".utf8ByteSize + name.utf8ByteSize + "/".utf8ByteSize +
        (String.intercalate "/" parts).utf8ByteSize + "/".utf8ByteSize := by
    have some : (below [name] parts).parts ≠ [] := by simp [below]
    have joined : (below [name] parts).parts = name :: parts := rfl
    rw [PathName.leading, if_neg some, PathName.text_of_isAbsolute rfl, joined,
      String.utf8ByteSize_append, String.utf8ByteSize_append]
    have root : (PathName.rootText (below [name] parts).root).utf8ByteSize = "/".utf8ByteSize := rfl
    rw [root]
    by_cases none : parts = []
    · subst none
      rw [String.intercalate_singleton]
      omega
    · rw [String.intercalate_cons_of_ne_nil none, String.utf8ByteSize_append,
        String.utf8ByteSize_append]
      omega
  unfold partLimit at short
  unfold nameLimit
  have slash : "/".utf8ByteSize = 1 := by decide
  omega

/-- The directory under a name without characters of patterns. -/
def housed
    (name : String)
    (plain : IsPlain name)
    (ordinary : Pattern.isMagic name = false) :
    Setting gallery ["*.svg", "b/../a.svg"] where
  host := housing name
  place := [name]
  base := ⟨.slash, [name]⟩
  isTree := isTree_housing plain
  resolve_eq := resolve_housing plain
  holds := holds_housing name
  isDirectory := rfl
  isEnclosed := isEnclosed_gallery
  isPlain := fun _ _ _ part held => List.mem_singleton.mp held ▸ ordinary
  roomy := by
    intro parts turn inner walked
    have bounds : ∀ input ∈ ["*.svg", "b/../a.svg"],
        (PathName.ofText input).parts.count ".." ≤ 1 := by decide
    obtain ⟨input, held, few⟩ := inner.isBounded
    exact utf8ByteSize_leading_gallery plain
      (parts_of_inward_gallery inner (few.trans (bounds input held)) walked)
  fits := by
    have only : ∀ input ∈ ["*.svg", "b/../a.svg"], Pattern.isMagic input = false →
        (PathName.ofText input).parts = ["b", "..", "a.svg"] := by decide
    intro input held literal
    refine (utf8ByteSize_text_le_leading [name] _).trans (utf8ByteSize_leading_gallery plain ?_)
    rw [only input held literal]
    decide

theorem ends_gallery :
    Ends gallery 0 [] ["b"] ["b"] ∧ Ends gallery 0 [] ["b", "..", "a.svg"] ["a.svg"] := by
  refine ⟨.enter (by decide) (by decide) (linkAt?_gallery _) (.stop _), ?_⟩
  exact .enter (by decide) (by decide) (linkAt?_gallery _)
    (.up (.enter (by decide) (by decide) (linkAt?_gallery _) (.stop _)))

theorem isInner_gallery : ∀ input ∈ ["*.svg", "b/../a.svg"], IsInner gallery input := by
  have parts : (PathName.ofText "*.svg").parts = ["*.svg"] ∧
      (PathName.ofText "b/../a.svg").parts = ["b", "..", "a.svg"] := by decide
  have pattern : IsInner gallery "*.svg" := by
    refine ⟨by decide, by decide, fun front behind cut => ?_, fun literal => ?_⟩
    · rw [parts.1] at cut
      have held : ".." ∈ ["*.svg"] := cut ▸ List.mem_append_right _ List.mem_cons_self
      exact absurd held (by decide)
    · exact absurd literal (by decide)
  have literal : IsInner gallery "b/../a.svg" := by
    refine ⟨by decide, by decide, fun front behind cut names filled count turn ends => ?_,
      fun _ => ?_⟩
    · rw [parts.2] at cut
      have first : front = ["b"] := by
        match front, cut with
        | [], cut => simp at cut
        | [only], cut => rw [(List.cons_eq_cons.mp cut).1]
        | [_, _], cut => simp at cut
        | _ :: _ :: _ :: _, cut => simp at cut
      subst first
      obtain ⟨chains, each, rfl⟩ := filled
      obtain ⟨chain, others, fills, none, rfl⟩ := List.forall₂_cons_left_iff.mp each
      rw [Fills, if_neg (by decide)] at fills
      rw [List.forall₂_nil_left_iff.mp none, fills] at ends
      rw [(ends.unique ends_gallery.1).2]
      exact List.cons_ne_nil _ _
    · rw [parts.2]
      exact ⟨0, Nat.zero_le _, ["a.svg"], ends_gallery.2⟩
  exact List.forall_mem_cons.mpr ⟨pattern, List.forall_mem_singleton.mpr literal⟩

theorem scan_relocation_of_gallery :
    (∀ input ∈ ["*.svg", "b/../a.svg"], IsInner gallery input) ∧
      Agree (List.Forall₂ (Twins ["x1"] ["y"] IsPure))
        (scan (housing "x1") ["*.svg", "b/../a.svg"] [] ⟨.slash, ["x1"]⟩).result
        (scan (housing "y") ["*.svg", "b/../a.svg"] [] ⟨.slash, ["y"]⟩).result :=
  ⟨isInner_gallery, scan_relocation
    (housed "x1" (by decide) (by decide))
    (housed "y" (by decide) (by decide)) isInner_gallery⟩

theorem contribution_ordinary :
    contribution (housing "x1") (Location.pathName ["x1"]) "*.svg" =
      .ok [⟨.slash, ["x1", "a.svg"]⟩] := by
  have plain : IsPlain "x1" := by decide
  have tree := isTree_housing plain
  have there : (housing "x1").root.at? ["a.svg", "x1"] = some (.file []) := rfl
  have located : (housing "x1").locate true "/x1" = .ok ["x1"] := by
    have text : "/x1" = PathName.text ⟨.slash, ["x1"]⟩ := by decide
    rw [text, Host.locate_text tree rfl (by decide) (by decide) (by decide),
      Host.walk_enter (by decide) rfl (by decide) (at?_housing "x1")
        (by simp [gallery, FileNode.host]), Host.walk]
  have listed : (housing "x1").entriesAt "/x1" = .ok gallery.root.entries :=
    Host.entriesAt_eq_ok_iff.mpr ⟨_, located, at?_housing "x1", rfl⟩
  have found : (housing "x1").find (PathName.text ⟨.slash, ["x1", "a.svg"]⟩) = .ok (.file []) := by
    refine Host.find_text tree rfl (by decide) (by decide) (by decide) ?_ there
    rw [Host.walk_enter (by decide) rfl (by decide) (at?_housing "x1")
        (by simp [gallery, FileNode.host]),
      Host.walk_enter (by decide) rfl (by decide) there (by simp), Host.walk]
  have resolved : (housing "x1").resolve ⟨.slash, ["x1", "a.svg"]⟩ = .ok ⟨.slash, ["x1", "a.svg"]⟩ :=
    @Host.resolve_pathName _ ["a.svg", "x1"] tree (Host.isFree_of_at? there (by simp))
      (Host.isPure_of_at? tree there)
  have pattern : (patternOf ["x1"] "*.svg").toList = "/x1/*.svg".toList := by decide
  have front : Glob.splitLast "/x1/*.svg".toList = ("/x1".toList, "*.svg".toList) := by decide
  have directories : Glob.directoriesOf (housing "x1") 899 "/x1/*.svg".toList = .ok ["/x1"] := by
    rw [Glob.directoriesOf, front]
    decide
  have within : Glob.inside (housing "x1") false 899 "*.svg" "/x1" = .ok ["a.svg"] := by
    rw [Glob.inside, Glob.matching, Glob.listing, listed]
    decide
  have expanded : Glob.expand (housing "x1") false (899 + 1) (patternOf ["x1"] "*.svg").toList =
      .ok ["/x1/a.svg"] := by
    rw [pattern]
    exact Glob.expand_of_directory directories (by rw [front, String.ofList_toList, within])
  have globbed : glob (housing "x1") (patternOf ["x1"] "*.svg") = .ok ["/x1/a.svg"] := by
    rw [glob]
    exact congrArg _ expanded
  have kept : onlyFiles (housing "x1") [⟨.slash, ["x1", "a.svg"]⟩] =
      .ok [⟨.slash, ["x1", "a.svg"]⟩] := by
    rw [onlyFiles_cons, Host.isFileAt_eq_true_iff.mpr ⟨[], found⟩]
    rfl
  have name : PathName.ofText "/x1/a.svg" = ⟨.slash, ["x1", "a.svg"]⟩ := by decide
  rw [contribution, expandInput_of_isMagic (by decide), globbed]
  change (onlyFiles (housing "x1") [PathName.ofText "/x1/a.svg"] >>= _) = _
  rw [name, kept]
  exact mapM_eq_ok_iff.mpr (.cons resolved .nil)

theorem contribution_bracketed :
    contribution (housing "x[1]") (Location.pathName ["x[1]"]) "*.svg" = .ok [] := by
  have listed : (housing "x[1]").entriesAt "/" = .ok (housing "x[1]").root.entries :=
    Host.entriesAt_root rfl rfl
  have listing : Glob.listing (housing "x[1]") true "/" = ["x[1]"] := by
    rw [Glob.listing, listed]
    decide
  have pattern : (patternOf ["x[1]"] "*.svg").toList = "/x[1]/*.svg".toList := by decide
  have front : Glob.splitLast "/x[1]/*.svg".toList = ("/x[1]".toList, "*.svg".toList) ∧
      Glob.splitLast "/x[1]".toList = ("/".toList, "x[1]".toList) := by decide
  have within : Glob.inside (housing "x[1]") true 898 "x[1]" "/" = .ok [] := by
    rw [Glob.inside, Glob.matching, listing]
    decide
  have directories : Glob.directoriesOf (housing "x[1]") (898 + 1) "/x[1]/*.svg".toList = .ok [] := by
    rw [Glob.directoriesOf, front.1, if_pos (by decide)]
    have above : Glob.directoriesOf (housing "x[1]") 898 "/x[1]".toList = .ok ["/"] := by
      rw [Glob.directoriesOf, front.2]
      decide
    exact Glob.expand_of_directory above (by rw [front.2, String.ofList_toList, within])
  have expanded : Glob.expand (housing "x[1]") false (898 + 1 + 1) (patternOf ["x[1]"] "*.svg").toList =
      .ok [] := by
    rw [pattern, Glob.expand_succ, directories]
    rfl
  have globbed : glob (housing "x[1]") (patternOf ["x[1]"] "*.svg") = .ok [] := by
    rw [glob]
    exact congrArg _ expanded
  rw [contribution, expandInput_of_isMagic (by decide), globbed]
  rfl

/-- The name of the directory is read as a part of the pattern, so that a directory whose name does not
match itself hides its files. -/
theorem scan_bracketed :
    (scan (housing "x1") ["*.svg"] [] ⟨.slash, ["x1"]⟩).result = .ok [⟨.slash, ["x1", "a.svg"]⟩] ∧
      (scan (housing "x[1]") ["*.svg"] [] ⟨.slash, ["x[1]"]⟩).result = .ok [] := by
  have first := mapM_eq_ok_iff.mpr (.cons contribution_ordinary .nil)
  have second := mapM_eq_ok_iff.mpr (.cons contribution_bracketed .nil)
  rw [scan_result_of_resolve (resolve_housing (by decide)),
    scan_result_of_resolve (resolve_housing (by decide))]
  exact ⟨(congrArg _ first).trans (by decide), (congrArg _ second).trans rfl⟩

end Files
end MarkupLint
