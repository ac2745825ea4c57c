import MarkupLint.Proofs.Files.Discovery
import MarkupLint.Proofs.Files.Enclosing

/-!
# Names inside a directory

The same content may stand at several places of several trees.  What names inside of it lead to, and
which of them match a part of a pattern, depends on the content alone, as long as the names are short
enough to be looked up.
-/

namespace MarkupLint
namespace Files

open Host (IsPure)

/-- The name that parts make up below a place. -/
def below (place : Location) (parts : List String) : PathName := ⟨.slash, place.reverse ++ parts⟩

/-- The same name, with a slash at its end if asked for. -/
def spelled (place : Location) (parts : List String) (slash : Bool) : String :=
  if slash then (below place parts).leading else (below place parts).text

/-- Parts of a name that stays inside a directory, and that steps up no more often than an input does. -/
structure IsInward (content : Host) (inputs parts : List String) : Prop where
  isPart : ∀ part ∈ parts, IsPart part
  isClean : ∀ part ∈ parts, '\x00' ∉ part.toList
  stays : content.Stays [] parts
  isBounded : ∃ input ∈ inputs, parts.count ".." ≤ (PathName.ofText input).parts.count ".."

/-- A tree with an enclosed directory at a place, which leaves room for the names that lead somewhere
inside and for those that inputs are. -/
structure Setting (content : Host) (inputs : List String) where
  host : Host
  place : Location
  /-- The name from which the inputs are read. -/
  base : PathName
  isTree : host.root.IsTree
  resolve_eq : host.resolve base = .ok place.pathName
  holds : host.Holds place content
  isDirectory : content.root.isDirectory = true
  isEnclosed : content.IsEnclosed
  /-- No pattern is read behind a name with characters of patterns. -/
  isPlain : ∀ input ∈ inputs, Pattern.isMagic input = true →
    ∀ part ∈ place, Pattern.isMagic part = false
  roomy : ∀ parts turn, IsInward content inputs parts →
    content.root.host.walk false linkLimit [] parts = .ok turn →
    (below place parts).leading.utf8ByteSize ≤ nameLimit
  fits : ∀ input ∈ inputs, Pattern.isMagic input = false →
    (below place (PathName.ofText input).parts).text.utf8ByteSize ≤ nameLimit

/-- The last part behind a slash. -/
def trailing (slash : Bool) : List String := if slash then [""] else []

/-- What a name inside a directory leads to. -/
def Leads (content : Host) (parts : List String) (slash : Bool) (node : FileNode) : Prop :=
  ∃ turn, content.walk true linkLimit [] (parts ++ trailing slash) = .ok turn ∧
    content.root.at? turn = some node

/-- The entries that are listed for a name inside a directory. -/
def Lists
    (content : Host)
    (parts : List String)
    (slash : Bool)
    (entries : List (String × FileNode)) :
    Prop :=
  ∃ turn, content.walk true linkLimit [] (parts ++ trailing slash) = .ok turn ∧
    content.root.at? turn = some (.directory entries) ∧ content.lists turn = true

namespace IsInward

variable {content : Host} {inputs parts chain : List String} {name : String}

theorem append (inner : IsInward content inputs parts) (pure : IsPure chain) :
    IsInward content inputs (parts ++ chain) := by
  have below : ".." ∉ chain := fun held => (pure ".." held).1.isBelow rfl
  obtain ⟨input, among, few⟩ := inner.isBounded
  constructor
  · refine List.forall_mem_append.mpr ⟨inner.isPart, fun part held => ?_⟩
    exact Host.isTidy_pathName pure part (List.mem_reverse.mpr held)
  · exact List.forall_mem_append.mpr ⟨inner.isClean, fun part held => (pure part held).2.1⟩
  · exact inner.stays.append_of_notMem below
  · exact ⟨input, among, by rwa [List.count_append, List.count_eq_zero.mpr below]⟩

theorem append_singleton (inner : IsInward content inputs parts) (plain : IsPlain name) :
    IsInward content inputs (parts ++ [name]) :=
  inner.append fun _ held =>
    List.mem_singleton.mp held ▸ ⟨.of_isPlain plain, plain.isClean, plain.isWhole⟩

end IsInward

section Names

variable {content : Host} {inputs : List String} {place : Location} {parts : List String}

theorem isTidy_below_place (above : IsPure place) (inner : IsInward content inputs parts) :
    (below place parts).IsTidy := by
  intro part held
  rcases List.mem_append.mp held with held | held
  · exact Host.isTidy_pathName above part held
  · exact inner.isPart part held

theorem notMem_text_below (above : IsPure place) (inner : IsInward content inputs parts) :
    '\x00' ∉ (below place parts).text.toList := by
  refine PathName.notMem_text rfl fun part held => ?_
  rcases List.mem_append.mp held with held | held
  · exact (above part (List.mem_reverse.mp held)).2.1
  · exact inner.isClean part held

/-- A name is short if it is so with a slash at its end. -/
theorem utf8ByteSize_text_le_leading (place : Location) (parts : List String) :
    (below place parts).text.utf8ByteSize ≤ (below place parts).leading.utf8ByteSize := by
  rw [PathName.leading]
  split
  · next none =>
    rw [PathName.text_of_isAbsolute rfl, none, String.intercalate_nil, String.append_empty]
  · simp

theorem notMem_spelled
    (above : IsPure place)
    (inner : IsInward content inputs parts)
    (slash : Bool) :
    '\x00' ∉ (spelled place parts slash).toList := by
  have clean := notMem_text_below above inner
  have slashed : '\x00' ∉ "/".toList := by decide
  unfold spelled
  split
  · rw [PathName.leading]
    split
    · exact slashed
    · rw [String.toList_append, List.mem_append, not_or]
      exact ⟨clean, slashed⟩
  · exact clean

theorem isEmpty_spelled (place : Location) (parts : List String) (slash : Bool) :
    (spelled place parts slash).isEmpty = false := by
  rw [← Bool.not_eq_true, String.isEmpty_iff, spelled, PathName.leading]
  split
  · split
    · exact (by decide : "/" ≠ "")
    · simp
  · exact Glob.text_ne_empty rfl

theorem joined_spelled
    (above : IsPure place)
    (inner : IsInward content inputs parts)
    (slash : Bool)
    (name : String) :
    Glob.joined (spelled place parts slash) name = (below place parts).leading ++ name := by
  unfold spelled
  split
  · refine Glob.joined_of_slash ?_ name
    rw [PathName.leading]
    split
    · change "/".toList.getLast? = some '/'
      decide
    · simp
  · exact Glob.joined_text rfl (isTidy_below_place above inner) name

/-- Inside a directory, a name is written behind the name of the directory. -/
theorem leading_append_intercalate
    (place : Location)
    (parts : List String)
    {chain : List String}
    (nonempty : chain ≠ []) :
    (below place parts).leading ++ String.intercalate "/" chain =
      spelled place (parts ++ chain) false := by
  rw [spelled, if_neg Bool.false_ne_true, below, below, ← List.append_assoc,
    PathName.text_append rfl nonempty]

theorem leading_append_empty (place : Location) (parts : List String) :
    (below place parts).leading ++ "" = spelled place parts true := by
  rw [spelled, if_pos rfl, String.append_empty]

end Names

/-- What a name leads to with a slash at its end, it leads to without one as well. -/
theorem exists_walk_of_trailing
    {content : Host}
    {parts : List String}
    {slash : Bool}
    {turn : Location}
    (walked : content.walk true linkLimit [] (parts ++ trailing slash) = .ok turn) :
    content.walk true linkLimit [] parts = .ok turn := by
  cases slash with
  | false => rwa [trailing, if_neg Bool.false_ne_true, List.append_nil] at walked
  | true =>
    obtain ⟨mid, reached, left, -, last⟩ := Host.exists_walk_of_append walked (List.cons_ne_nil _ _)
    obtain ⟨entries, above⟩ := Host.exists_entries_of_walk_cons last
    rw [trailing, if_pos rfl, Host.walk_idle above (by simp [Host.admits]) (.inl rfl), Host.walk] at last
    rwa [← Except.ok.inj last]

/-- What a name leads to, it leads to without following a link at its end. -/
theorem exists_unfollowed_of_trailing
    {content : Host}
    {parts : List String}
    {slash followsLast : Bool}
    {turn : Location}
    (walked : content.walk followsLast linkLimit [] (parts ++ trailing slash) = .ok turn) :
    ∃ other, content.walk false linkLimit [] parts = .ok other := by
  have unfollowed : ∀ {turn}, content.walk true linkLimit [] parts = .ok turn →
      ∃ other, content.walk false linkLimit [] parts = .ok other := by
    intro turn reached
    obtain ⟨other, -, walked, -⟩ := Host.exists_walk_unfollowed (FileNode.at?_nil content.root) reached
    exact ⟨other, walked⟩
  cases followsLast with
  | true => exact unfollowed (exists_walk_of_trailing walked)
  | false =>
    cases slash with
    | false => exact ⟨turn, by rwa [trailing, if_neg Bool.false_ne_true, List.append_nil] at walked⟩
    | true =>
      obtain ⟨mid, reached, -⟩ := Host.exists_walk_of_append walked (List.cons_ne_nil _ _)
      exact unfollowed reached

/-! ## Looking up names inside -/

namespace Setting

variable {content : Host} {inputs : List String} (setting : Setting content inputs)
  {parts : List String} {slash followsLast : Bool} {node : FileNode}
  {entries : List (String × FileNode)}

theorem isPure_place : IsPure setting.place :=
  Host.isPure_of_at? setting.isTree setting.holds.there

theorem isTree_content (setting : Setting content inputs) : content.root.IsTree where
  isProper := FileNode.isProper_of_at? setting.isTree.isProper setting.holds.there
  isDirectory := setting.isDirectory

theorem walk_partsOf_spelled
    (inner : IsInward content inputs parts)
    (slash followsLast : Bool) :
    setting.host.walk followsLast linkLimit [] (partsOf (spelled setting.place parts slash)) =
      setting.host.walk followsLast linkLimit setting.place (parts ++ trailing slash) := by
  obtain ⟨entries, top⟩ := setting.isTree.exists_entries
  obtain ⟨idle, -, empty, known⟩ := PathName.partsOf_text
    (rfl : (below setting.place parts).isAbsolute = true)
    (isTidy_below_place setting.isPure_place inner)
  have goesDown : ∀ rest, setting.host.walk followsLast linkLimit [] (setting.place.reverse ++ rest) =
      setting.host.walk followsLast linkLimit setting.place rest := by
    intro rest
    obtain ⟨others, known⟩ := setting.isTree_content.exists_entries
    have here : setting.host.root.at? (setting.place ++ []) = some (.directory others) := by
      rw [List.append_nil, setting.holds.there]
      exact known
    have reached : setting.host.reaches (setting.place ++ []) = true := by
      rw [List.append_nil, setting.holds.reached]
    rw [Host.walk_reverse_append setting.isTree.isProper here reached, List.append_nil]
  cases slash with
  | false =>
    rw [spelled, if_neg Bool.false_ne_true, known, Host.walk_append_of_idle top empty, below,
      goesDown, trailing, if_neg Bool.false_ne_true, List.append_nil]
  | true =>
    rw [spelled, if_pos rfl, PathName.leading, trailing, if_pos rfl, ← goesDown, ← List.append_assoc]
    split
    · next none =>
      have none : setting.place.reverse ++ parts = [] := none
      rw [none]
      change setting.host.walk followsLast linkLimit [] (partsOf "/") = _
      rw [partsOf_slash, Host.walk_idle top (by simp [Host.admits]) (.inl rfl)]
      rfl
    · have spelledOut : (below setting.place parts).text ++ "/" =
          (below setting.place parts).text ++ "/" ++ "" := by rw [String.append_empty]
      rw [spelledOut, partsOf_append_slash, known, List.append_assoc,
        Host.walk_append_of_idle top empty]
      rfl

/-- Walking along a name inside is walking inside. -/
theorem walk_spelled
    (inner : IsInward content inputs parts)
    (slash followsLast : Bool) :
    setting.host.walk followsLast linkLimit [] (partsOf (spelled setting.place parts slash)) =
      (content.walk followsLast linkLimit [] (parts ++ trailing slash)).map (· ++ setting.place) := by
  have stays : content.Stays [] (parts ++ trailing slash) :=
    inner.stays.append_of_notMem (by cases slash <;> decide)
  rw [setting.walk_partsOf_spelled inner,
    ← Host.walk_append_place setting.isTree_content.isProper setting.isEnclosed setting.holds rfl stays]
  rfl

/-- A name that leads somewhere inside if everything is permitted is short enough to be looked up. -/
theorem utf8ByteSize_spelled_le
    (inner : IsInward content inputs parts)
    {turn : Location}
    (walked : content.root.host.walk false linkLimit [] parts = .ok turn)
    (slash : Bool) :
    (spelled setting.place parts slash).utf8ByteSize ≤ nameLimit := by
  have short := setting.roomy parts turn inner walked
  unfold spelled
  split
  · exact short
  · exact (utf8ByteSize_text_le_leading setting.place parts).trans short

/-- A name inside leads to a place inside if its parts do so. -/
theorem locate_spelled_eq_ok_iff
    (inner : IsInward content inputs parts)
    {place : Location} :
    setting.host.locate followsLast (spelled setting.place parts slash) = .ok place ↔
      ∃ turn, content.walk followsLast linkLimit [] (parts ++ trailing slash) = .ok turn ∧
        turn ++ setting.place = place := by
  rw [Host.locate_eq_ok_iff, setting.walk_spelled inner, map_eq_ok_iff]
  refine ⟨fun located => located.2.2, fun ⟨turn, walked, same⟩ => ⟨?_, ?_, turn, walked, same⟩⟩
  · exact notMem_spelled setting.isPure_place inner slash
  · obtain ⟨other, reached⟩ := exists_unfollowed_of_trailing walked
    exact setting.utf8ByteSize_spelled_le inner (Host.walk_permitted reached) slash

theorem find_spelled_eq_ok_iff (inner : IsInward content inputs parts) :
    setting.host.find (spelled setting.place parts slash) = .ok node ↔
      Leads content parts slash node := by
  rw [Host.find_eq_ok_iff]
  simp only [setting.locate_spelled_eq_ok_iff inner]
  constructor
  · rintro ⟨_, ⟨turn, walked, rfl⟩, there⟩
    exact ⟨turn, walked, (setting.holds.at?_append turn).symm.trans there⟩
  · rintro ⟨turn, walked, there⟩
    exact ⟨turn ++ setting.place, ⟨turn, walked, rfl⟩, (setting.holds.at?_append turn).trans there⟩

theorem entriesAt_spelled_eq_ok_iff (inner : IsInward content inputs parts) :
    setting.host.entriesAt (spelled setting.place parts slash) = .ok entries ↔
      Lists content parts slash entries := by
  rw [Host.entriesAt_eq_ok_iff]
  simp only [setting.locate_spelled_eq_ok_iff inner]
  constructor
  · rintro ⟨_, ⟨turn, walked, rfl⟩, there, listed⟩
    exact ⟨turn, walked, (setting.holds.at?_append turn).symm.trans there,
      (setting.holds.lists_eq turn).symm.trans listed⟩
  · rintro ⟨turn, walked, there, listed⟩
    exact ⟨turn ++ setting.place, ⟨turn, walked, rfl⟩, (setting.holds.at?_append turn).trans there,
      (setting.holds.lists_eq turn).trans listed⟩

theorem hasEntry_spelled_iff (inner : IsInward content inputs parts) :
    setting.host.hasEntry (spelled setting.place parts false) = true ↔
      ∃ turn, content.walk false linkLimit [] parts = .ok turn := by
  have located := fun turn =>
    @locate_spelled_eq_ok_iff content inputs setting parts false false inner turn
  rw [trailing, if_neg Bool.false_ne_true, List.append_nil] at located
  constructor
  · intro known
    unfold Host.hasEntry at known
    split at known
    · next turn reached =>
      obtain ⟨inward, walked, -⟩ := (located turn).mp reached
      exact ⟨inward, walked⟩
    · contradiction
  · rintro ⟨inward, walked⟩
    obtain ⟨entries, top⟩ := setting.isTree_content.exists_entries
    obtain ⟨node, there, -⟩ := Host.exists_at?_of_walk walked top (by simp)
    rw [Host.hasEntry, (located _).mpr ⟨inward, walked, rfl⟩]
    simp only [setting.holds.at?_append, there, Option.isSome_some]

/-- Whether a name inside is that of a directory. -/
theorem isDirectory_spelled_iff (inner : IsInward content inputs parts) :
    Glob.isDirectory setting.host (spelled setting.place parts slash) = true ↔
      ∃ entries, Leads content parts slash (.directory entries) := by
  simp only [← setting.find_spelled_eq_ok_iff inner, Glob.isDirectory]
  cases found : setting.host.find (spelled setting.place parts slash) with
  | error fault => simp
  | ok node => cases node <;> simp [FileNode.isDirectory]

/-! ## Listing what is inside -/

variable {onlyDirectories : Bool} {name : String}

theorem joined_spelled_singleton
    (inner : IsInward content inputs parts)
    (slash : Bool)
    (name : String) :
    Glob.joined (spelled setting.place parts slash) name =
      spelled setting.place (parts ++ [name]) false := by
  rw [joined_spelled setting.isPure_place inner,
    ← leading_append_intercalate _ _ (List.cons_ne_nil name []), String.intercalate_singleton]

theorem isPlain_of_mem_lists
    (setting : Setting content inputs)
    (lists : Lists content parts slash entries)
    {entry : String × FileNode}
    (held : entry ∈ entries) :
    IsPlain entry.1 := by
  obtain ⟨turn, -, there, -⟩ := lists
  exact FileNode.isPlain_of_mem_keys
    (FileNode.isProper_of_at? setting.isTree_content.isProper there) (List.mem_map_of_mem held)

/-- Where an entry is listed, something stands. -/
theorem exists_walk_of_mem_lists
    (setting : Setting content inputs)
    (lists : Lists content parts slash entries)
    {entry : String × FileNode}
    (held : entry ∈ entries) :
    ∃ turn, content.root.host.walk false linkLimit [] (parts ++ [entry.1]) = .ok turn := by
  have plain := setting.isPlain_of_mem_lists lists held
  obtain ⟨turn, walked, there, -⟩ := lists
  have proper := FileNode.isProper_of_at? setting.isTree_content.isProper there
  obtain ⟨node, known⟩ := FileNode.exists_value_of_mem_keys proper (List.mem_map_of_mem held)
  obtain ⟨left, -, on⟩ :=
    Host.walk_continues (Host.walk_permitted (exists_walk_of_trailing walked))
  refine ⟨entry.1 :: turn, (on false [entry.1] (.inr (List.cons_ne_nil _ _))).trans ?_⟩
  exact Host.walk_singleton_unfollowed (.of_isPlain plain) rfl plain.isShort
    ((FileNode.at?_cons there entry.1).trans known)

theorem exists_lists_of_mem_listing
    (inner : IsInward content inputs parts)
    (held : name ∈ Glob.listing setting.host onlyDirectories (spelled setting.place parts slash)) :
    ∃ entries, Lists content parts slash entries ∧ ∃ entry ∈ entries, entry.1 = name := by
  have listed := Glob.listing_subset held
  unfold Glob.listing at listed
  split at listed
  · next entries known =>
    exact ⟨entries, (setting.entriesAt_spelled_eq_ok_iff inner).mp known, List.mem_map.mp listed⟩
  · contradiction

end Setting

section Relation

variable {content : Host} {inputs : List String} (first second : Setting content inputs)
  {parts : List String} {slash onlyDirectories : Bool}

include second in
theorem Setting.room_eq : first.host.room = second.host.room :=
  first.holds.room_eq.trans second.holds.room_eq.symm

theorem isDirectory_spelled_eq (inner : IsInward content inputs parts) (slash : Bool) :
    Glob.isDirectory first.host (spelled first.place parts slash) =
      Glob.isDirectory second.host (spelled second.place parts slash) := by
  rw [Bool.eq_iff_iff, first.isDirectory_spelled_iff inner, second.isDirectory_spelled_iff inner]

theorem isDirectoryEntry_eq
    (inner : IsInward content inputs parts)
    (slash : Bool)
    {entry : String × FileNode}
    (plain : IsPlain entry.1) :
    Glob.isDirectoryEntry first.host (spelled first.place parts slash) entry =
      Glob.isDirectoryEntry second.host (spelled second.place parts slash) entry := by
  obtain ⟨name, node⟩ := entry
  cases node with
  | link target =>
    rw [Glob.isDirectoryEntry, Glob.isDirectoryEntry, first.joined_spelled_singleton inner,
      second.joined_spelled_singleton inner]
    exact isDirectory_spelled_eq first second (inner.append_singleton plain) false
  | _ => rfl

/-- The entries of a directory inside do not depend on the setting. -/
theorem listing_spelled_eq
    (inner : IsInward content inputs parts)
    (slash onlyDirectories : Bool) :
    Glob.listing first.host onlyDirectories (spelled first.place parts slash) =
      Glob.listing second.host onlyDirectories (spelled second.place parts slash) := by
  by_cases lists : ∃ entries, Lists content parts slash entries
  · obtain ⟨entries, lists⟩ := lists
    have kept : entries.filter
          (Glob.isDirectoryEntry first.host (spelled first.place parts slash)) =
        entries.filter (Glob.isDirectoryEntry second.host (spelled second.place parts slash)) :=
      List.filter_congr fun entry held =>
        isDirectoryEntry_eq first second inner slash (first.isPlain_of_mem_lists lists held)
    simp only [Glob.listing, (first.entriesAt_spelled_eq_ok_iff inner).mpr lists,
      (second.entriesAt_spelled_eq_ok_iff inner).mpr lists, kept]
  · have none : ∀ setting : Setting content inputs,
        Glob.listing setting.host onlyDirectories (spelled setting.place parts slash) = [] := by
      intro setting
      rw [List.eq_nil_iff_forall_not_mem]
      intro name held
      obtain ⟨entries, known, -⟩ := setting.exists_lists_of_mem_listing inner held
      exact lists ⟨entries, known⟩
    rw [none first, none second]

/-- What is inside a directory, however deep, does not depend on the setting. -/
theorem everything_spelled_eq
    (inner : IsInward content inputs parts)
    (slash onlyDirectories : Bool)
    (room : Nat) :
    Glob.everything first.host onlyDirectories room (spelled first.place parts slash) =
      Glob.everything second.host onlyDirectories room (spelled second.place parts slash) := by
  induction room generalizing parts slash with
  | zero => rfl
  | succ room ih =>
    rw [Glob.everything, Glob.everything, listing_spelled_eq first second inner]
    refine congrArg (· >>= _) (mapM_congr fun name held => ?_)
    have plain := Glob.isPlain_of_mem_listing second.isTree (List.mem_of_mem_filter held)
    rw [first.joined_spelled_singleton inner, second.joined_spelled_singleton inner,
      ih (inner.append_singleton plain) false]

/-- Which names inside a directory match a part of a pattern does not depend on the setting. -/
theorem inside_spelled_eq
    (inner : IsInward content inputs parts)
    (slash onlyDirectories : Bool)
    (room : Nat)
    {part : String}
    (literal : Pattern.isMagic part = false → IsInward content inputs (parts ++ [part])) :
    Glob.inside first.host onlyDirectories room part (spelled first.place parts slash) =
      Glob.inside second.host onlyDirectories room part (spelled second.place parts slash) := by
  have clean := fun setting : Setting content inputs =>
    notMem_spelled setting.isPure_place inner slash
  have listed := fun only => listing_spelled_eq first second inner slash only
  have directory := isDirectory_spelled_eq first second inner slash
  have deep := everything_spelled_eq first second inner slash onlyDirectories room
  cases isMagic : Pattern.isMagic part with
  | true =>
    simp only [Glob.inside, Glob.matching, isMagic, if_true, List.contains_iff_mem, clean, if_false,
      isEmpty_spelled, Bool.false_or, listed, directory, deep]
  | false =>
    have entry : first.host.hasEntry (spelled first.place (parts ++ [part]) false) =
        second.host.hasEntry (spelled second.place (parts ++ [part]) false) := by
      rw [Bool.eq_iff_iff, first.hasEntry_spelled_iff (literal isMagic),
        second.hasEntry_spelled_iff (literal isMagic)]
    simp only [Glob.inside, isMagic, Bool.false_eq_true, if_false, directory, entry,
      first.joined_spelled_singleton inner,
      second.joined_spelled_singleton inner]

end Relation

/-- What a part of a pattern stands for: any other part for itself, two stars for any names one below the
other, and any other pattern for one name. -/
def Fills (part : String) (chain : List String) : Prop :=
  if Pattern.isMagic part then IsPure chain ∧ (part ≠ "**" → chain.length = 1) else chain = [part]

theorem joined_intercalate
    {name : String}
    (proper : IsPart name)
    {chain : List String}
    (nonempty : chain ≠ []) :
    Glob.joined name (String.intercalate "/" chain) = String.intercalate "/" (name :: chain) := by
  rw [String.intercalate_cons_of_ne_nil nonempty]
  refine Glob.joined_of_other (fun empty => proper.ne.1 empty) (fun ends => ?_) _
  exact proper.isWhole (List.mem_of_getLast? ends)

namespace Setting

variable {content : Host} {inputs : List String} (setting : Setting content inputs)
  {parts names : List String} {slash onlyDirectories : Bool} {name : String} {room : Nat}

theorem exists_chain_of_mem_everything
    (inner : IsInward content inputs parts)
    (outcome : Glob.everything setting.host onlyDirectories room (spelled setting.place parts slash) =
      .ok names)
    (held : name ∈ names) :
    ∃ chain ≠ [], name = String.intercalate "/" chain ∧ IsPure chain ∧
      ∃ turn, content.root.host.walk false linkLimit [] (parts ++ chain) = .ok turn := by
  induction room generalizing parts slash name names with
  | zero => contradiction
  | succ room ih =>
    obtain ⟨found, mapped, outcome⟩ := bind_eq_ok_iff.mp outcome
    cases outcome
    obtain ⟨inward, among, held⟩ := List.mem_flatten.mp held
    obtain ⟨last, listed, outcome⟩ := (mem_iff_of_mapM_eq_ok mapped).mp among
    obtain ⟨deeper, searched, outcome⟩ := bind_eq_ok_iff.mp outcome
    cases outcome
    obtain ⟨entries, lists, entry, inside, rfl⟩ :=
      setting.exists_lists_of_mem_listing inner (List.mem_of_mem_filter listed)
    have plain := setting.isPlain_of_mem_lists lists inside
    have itself : Host.IsStep entry.1 ∧ '\x00' ∉ entry.1.toList ∧ '/' ∉ entry.1.toList :=
      ⟨.of_isPlain plain, plain.isClean, plain.isWhole⟩
    rcases List.mem_cons.mp held with rfl | held
    · refine ⟨[entry.1], List.cons_ne_nil _ _, String.intercalate_singleton.symm, ?_,
        setting.exists_walk_of_mem_lists lists inside⟩
      exact fun part alone => List.mem_singleton.mp alone ▸ itself
    · obtain ⟨name, below, rfl⟩ := List.mem_map.mp held
      rw [setting.joined_spelled_singleton inner] at searched
      obtain ⟨chain, nonempty, rfl, pure, turn, walked⟩ :=
        ih (inner.append_singleton plain) searched below
      rw [List.append_assoc, List.singleton_append] at walked
      exact ⟨entry.1 :: chain, List.cons_ne_nil _ _,
        joined_intercalate ⟨plain.isTelling, plain.isWhole⟩ nonempty,
        List.forall_mem_cons.mpr ⟨itself, pure⟩, turn, walked⟩

/-- A name that is listed in a directory may stand for a part of a pattern, and is that of something. -/
theorem exists_chain_of_mem_listing
    (inner : IsInward content inputs parts)
    {part : String}
    (magic : Pattern.isMagic part = true)
    (held : name ∈ Glob.listing setting.host onlyDirectories (spelled setting.place parts slash)) :
    ∃ chain, name = String.intercalate "/" chain ∧ Fills part chain ∧
      ∃ turn, content.root.host.walk false linkLimit [] (parts ++ chain) = .ok turn := by
  obtain ⟨entries, lists, entry, inside, rfl⟩ := setting.exists_lists_of_mem_listing inner held
  have plain := setting.isPlain_of_mem_lists lists inside
  refine ⟨[entry.1], String.intercalate_singleton.symm, ?_,
    setting.exists_walk_of_mem_lists lists inside⟩
  rw [Fills, if_pos magic]
  exact ⟨fun other alone => List.mem_singleton.mp alone ▸
    ⟨.of_isPlain plain, plain.isClean, plain.isWhole⟩, fun _ => rfl⟩

/-- The names inside a directory that match a part of a pattern are those of something. -/
theorem exists_chain_of_mem_inside
    (inner : IsInward content inputs parts)
    {part : String}
    (proper : IsPart part)
    (literal : Pattern.isMagic part = false → IsInward content inputs (parts ++ [part]))
    (outcome : Glob.inside setting.host onlyDirectories room part
      (spelled setting.place parts slash) = .ok names)
    (held : name ∈ names) :
    ∃ chain, name = String.intercalate "/" chain ∧ Fills part chain ∧
      ∃ turn, content.root.host.walk false linkLimit [] (parts ++ chain) = .ok turn := by
  unfold Glob.inside at outcome
  rw [isEmpty_spelled, Bool.false_or] at outcome
  split at outcome
  · next magic =>
    split at outcome
    · contradiction
    · split at outcome
      · next wild =>
        obtain ⟨deeper, searched, outcome⟩ := bind_eq_ok_iff.mp outcome
        cases outcome
        have any : ∀ chain, IsPure chain → Fills part chain := by
          intro chain pure
          rw [Fills, if_pos magic]
          exact ⟨pure, fun other => absurd wild other⟩
        rcases List.mem_append.mp held with top | among
        · split at top
          · next known =>
            rw [List.mem_singleton.mp top]
            obtain ⟨entries, turn, walked, -⟩ := (setting.isDirectory_spelled_iff inner).mp known
            obtain ⟨other, reached⟩ := exists_unfollowed_of_trailing walked
            refine ⟨[], rfl, any [] (fun _ held => nomatch held), other, ?_⟩
            rw [List.append_nil]
            exact Host.walk_permitted reached
          · contradiction
        · obtain ⟨chain, -, same, pure, others⟩ :=
            setting.exists_chain_of_mem_everything inner searched among
          exact ⟨chain, same, any chain pure, others⟩
      · cases outcome
        have among := List.mem_of_mem_filter held
        split at among
        · exact setting.exists_chain_of_mem_listing inner magic among
        · exact setting.exists_chain_of_mem_listing inner magic (List.mem_of_mem_filter among)
  · next other =>
    have isLiteral : Pattern.isMagic part = false := by simpa using other
    split at outcome
    · next empty => exact absurd (String.isEmpty_iff.mp empty) proper.ne.1
    · cases outcome
      rw [setting.joined_spelled_singleton inner] at held
      split at held
      · next known =>
        rw [List.mem_singleton.mp held]
        obtain ⟨turn, walked⟩ := (setting.hasEntry_spelled_iff (literal isLiteral)).mp known
        refine ⟨[part], String.intercalate_singleton.symm, ?_, turn, Host.walk_permitted walked⟩
        rw [Fills, if_neg other]
      · contradiction

end Setting

end Files
end MarkupLint
