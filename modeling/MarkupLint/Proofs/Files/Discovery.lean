import MarkupLint.Proofs.Files.Containment

/-!
# Inputs that name files

A file that an input names is found, unless it is ignored.  A name with characters of patterns is read
as a pattern, so that it has to match itself, part by part.
-/

namespace MarkupLint
namespace Files
namespace Glob

open PathName (IsTidy isAbsolute leading text)

variable {host : Host} {kind : Root} {parts : List String} {onlyDirectories : Bool}
  {room : Nat} {part last directory : String} {node : FileNode}

/-- A part of a pattern that matches itself: it is plain, or it stands for any directories, or the pattern
that it writes matches it. -/
def MatchesItself (part : String) : Prop :=
  Pattern.isMagic part = true → part = "**" ∨ (Pattern.ofText part).holds part = true

theorem mem_listing
    {entries : List (String × FileNode)}
    (listed : host.entriesAt directory = .ok entries)
    (held : (part, node) ∈ entries)
    (leads : onlyDirectories = true → isDirectoryEntry host directory (part, node) = true) :
    part ∈ listing host onlyDirectories directory := by
  simp only [listing, listed]
  split
  · next only => exact List.mem_map.mpr ⟨_, List.mem_filter.mpr ⟨held, leads only⟩, rfl⟩
  · exact List.mem_map.mpr ⟨_, held, rfl⟩

/-- A part that leads on from a directory is listed there, and stays listed among the directories if it
leads to one. -/
theorem mem_listing_of_walk
    {entries : List (String × FileNode)}
    {above location : Location}
    {links : Nat}
    (step : Host.IsStep part)
    (parent : host.root.at? above = some (.directory entries))
    (listed : host.entriesAt directory = .ok entries)
    (walked : host.walk true links above [part] = .ok location)
    (there : host.root.at? location = some node)
    (found : host.find (joined directory part) = .ok node)
    (kept : onlyDirectories = true → node.isDirectory = true) :
    part ∈ listing host onlyDirectories directory := by
  obtain ⟨searched, fits, entry, entered⟩ := Host.exists_entry_of_walk_cons step walked
  have known := entered
  rw [FileNode.at?_cons parent] at known
  obtain ⟨before, behind, rfl, -⟩ := List.lookup_eq_some_iff.mp known
  refine mem_listing listed (List.mem_append_right before List.mem_cons_self) fun only => ?_
  -- The entry may be the link that leads to what is found.
  cases entry with
  | directory below => rfl
  | link target =>
    rw [isDirectoryEntry, isDirectory, found]
    exact kept only
  | file bytes =>
    rw [Host.walk_enter step searched fits entered (by simp), Host.walk] at walked
    cases walked
    cases entered.symm.trans there
    exact absurd (kept only) Bool.false_ne_true

/-- A part that matches itself is among the names that it stands for inside a directory with such an
entry. -/
theorem mem_inside_of_isMagic
    (isMagic : Pattern.isMagic part = true)
    (itself : MatchesItself part)
    (listed : part ∈ listing host onlyDirectories directory)
    {names : List String}
    (outcome : inside host onlyDirectories room part directory = .ok names) :
    part ∈ names := by
  rw [inside, if_pos isMagic] at outcome
  split at outcome
  · contradiction
  · split at outcome
    · next wild =>
      obtain ⟨below, searched, outcome⟩ := bind_eq_ok_iff.mp outcome
      cases outcome
      refine List.mem_append_right _ ?_
      cases room with
      | zero => contradiction
      | succ room =>
        have visible : (!isHidden part) = true := by rw [wild]; decide
        obtain ⟨found, mapped, outcome⟩ := bind_eq_ok_iff.mp searched
        cases outcome
        obtain ⟨inner, deeper⟩ :=
          exists_value_of_mapM_eq_ok mapped (List.mem_filter.mpr ⟨listed, visible⟩)
        refine List.mem_flatten.mpr ⟨inner, (mem_iff_of_mapM_eq_ok mapped).mpr
          ⟨part, List.mem_filter.mpr ⟨listed, visible⟩, deeper⟩, ?_⟩
        obtain ⟨_, -, outcome⟩ := bind_eq_ok_iff.mp deeper
        cases outcome
        exact List.mem_cons_self
    · next other =>
      cases outcome
      refine List.mem_filter.mpr ⟨?_, (itself isMagic).resolve_left other⟩
      split
      · exact listed
      · next visible => exact List.mem_filter.mpr ⟨listed, by simpa using visible⟩

/-- A part that is no pattern stands for itself if it leads to something. -/
theorem mem_inside_of_isPlain
    (isPlain : Pattern.isMagic part = false)
    (nonempty : part ≠ "")
    (found : host.find (joined directory part) = .ok node)
    {names : List String}
    (outcome : inside host onlyDirectories room part directory = .ok names) :
    part ∈ names := by
  have some : part.isEmpty = false := by simpa using nonempty
  rw [inside, isPlain, some, Host.hasEntry_of_find found] at outcome
  cases outcome
  exact List.mem_cons_self

theorem isMagic_text_nil (kind : Root) : Pattern.isMagic (text ⟨kind, []⟩) = false := by
  cases kind <;> decide

theorem utf8ByteSize_text_le (absolute : isAbsolute ⟨kind, parts⟩ = true) (last : String) :
    (text ⟨kind, parts⟩).utf8ByteSize ≤ (text ⟨kind, parts ++ [last]⟩).utf8ByteSize := by
  rw [PathName.text_append_singleton absolute, leading]
  split
  · next none =>
    rw [PathName.text_of_isAbsolute absolute]
    simp only at none
    simp [none]
  · simp [Nat.add_assoc]

/-- What a part stands for inside a directory that is looked into is among the names that match. -/
theorem joined_mem_expand
    {pattern : List Char}
    {names texts : List String}
    (known : directoriesOf host room pattern = .ok names)
    (among : directory ∈ names)
    (outcome : expand host onlyDirectories (room + 1) pattern = .ok texts)
    (within : ∀ inner,
      inside host onlyDirectories room (String.ofList (splitLast pattern).2) directory = .ok inner →
        part ∈ inner) :
    joined directory part ∈ texts := by
  rw [expand_succ] at outcome
  obtain ⟨others, again, outcome⟩ := bind_eq_ok_iff.mp outcome
  cases known.symm.trans again
  obtain ⟨lists, mapped, same⟩ := bind_eq_ok_iff.mp outcome
  cases same
  obtain ⟨found, listed⟩ := exists_value_of_mapM_eq_ok mapped among
  refine List.mem_flatten.mpr ⟨found, (mem_iff_of_mapM_eq_ok mapped).mpr ⟨_, among, listed⟩, ?_⟩
  obtain ⟨inner, outcome, same⟩ := bind_eq_ok_iff.mp listed
  cases same
  exact List.mem_map.mpr ⟨part, within inner outcome, rfl⟩

theorem expand_of_directory
    {pattern : List Char}
    {names : List String}
    (known : directoriesOf host room pattern = .ok [directory])
    (within : inside host onlyDirectories room (String.ofList (splitLast pattern).2) directory =
      .ok names) :
    expand host onlyDirectories (room + 1) pattern = .ok (names.map (joined directory)) := by
  rw [expand_succ, known]
  simp [bind, Except.bind, pure, Except.pure, within]

/-- The directories in which the parts of a name that are patterns are looked for may be listed. -/
def IsListed (host : Host) (name : PathName) : Prop :=
  ∀ above last below, name.parts = above ++ last :: below → Pattern.isMagic last = true →
    ∃ entries, host.entriesAt (text ⟨name.root, above⟩) = .ok entries

/-- A name whose parts match themselves is among the names that match it as a pattern. -/
theorem text_mem_expand
    (tree : host.root.IsTree)
    (absolute : isAbsolute ⟨kind, parts⟩ = true)
    (tidy : IsTidy ⟨kind, parts⟩)
    (clean : ∀ part ∈ parts, '\x00' ∉ part.toList)
    (short : (text ⟨kind, parts⟩).utf8ByteSize ≤ nameLimit)
    (listed : IsListed host ⟨kind, parts⟩)
    (itself : ∀ part ∈ parts, MatchesItself part)
    (nonempty : parts ≠ [])
    {location : Location}
    (walked : host.walk true linkLimit [] parts = .ok location)
    (there : host.root.at? location = some node)
    (kept : onlyDirectories = true → node.isDirectory = true)
    {texts : List String}
    (outcome : expand host onlyDirectories room (text ⟨kind, parts⟩).toList = .ok texts) :
    text ⟨kind, parts⟩ ∈ texts := by
  -- The directory that the name is looked for in is named by all parts but the last one, so it is
  -- there as it stands, or is found by expanding a pattern that is shorter.
  induction parts using List.reverseRecOn generalizing onlyDirectories room location node texts with
  | nil => contradiction
  | append_singleton above last ih =>
    have higher : isAbsolute ⟨kind, above⟩ = true := absolute
    have tidyAbove : IsTidy ⟨kind, above⟩ := fun part held => tidy part (List.mem_append_left _ held)
    have cleanAbove : ∀ part ∈ above, '\x00' ∉ part.toList :=
      fun part held => clean part (List.mem_append_left _ held)
    have shortAbove := (utf8ByteSize_text_le higher last).trans short
    obtain ⟨turn, reached, left, -, walkedLast⟩ := Host.exists_walk_of_append walked (by simp)
    obtain ⟨entries, parent⟩ := Host.exists_entries_of_walk_cons walkedLast
    have locatedAbove := (Host.locate_text tree higher tidyAbove
      (PathName.notMem_text higher cleanAbove) shortAbove).trans reached
    have foundLast : host.find (text ⟨kind, above ++ [last]⟩) = .ok node :=
      Host.find_text tree absolute tidy (PathName.notMem_text absolute clean) short walked there
    have spelled : joined (text ⟨kind, above⟩) last = text ⟨kind, above ++ [last]⟩ := by
      rw [joined_text higher tidyAbove, PathName.text_append_singleton higher]
    have front := splitLast_text higher tidy
    cases room with
    | zero => contradiction
    | succ room =>
      obtain ⟨directories, known, -⟩ := bind_eq_ok_iff.mp ((expand_succ _ _ _ _).symm.trans outcome)
      have among : text ⟨kind, above⟩ ∈ directories := by
        have looked := known
        rw [directoriesOf, front] at looked
        simp only [String.ofList_toList] at looked
        split at looked
        · next deeper =>
          have listedAbove : IsListed host ⟨kind, above⟩ := fun before part behind same =>
            listed before part (behind ++ [last]) (by simpa using congrArg (· ++ [last]) same)
          refine ih higher tidyAbove cleanAbove shortAbove listedAbove
            (fun part held => itself part (List.mem_append_left _ held)) ?_ reached parent
            (fun _ => rfl) looked
          rintro rfl
          rw [isMagic_text_nil] at deeper
          exact Bool.false_ne_true deeper.2
        · cases looked
          exact List.mem_cons_self
      refine spelled ▸ joined_mem_expand known among outcome fun inner within => ?_
      rw [front, String.ofList_toList] at within
      cases isMagic : Pattern.isMagic last with
      | true =>
        have telling := (tidy last (by simp)).ne
        have step : Host.IsStep last :=
          ⟨not_or.mpr telling, fun same => absurd (same ▸ isMagic) (by decide)⟩
        obtain ⟨others, listing⟩ := listed above last [] rfl isMagic
        obtain ⟨place, located, same, -⟩ := Host.entriesAt_eq_ok_iff.mp listing
        cases located.symm.trans locatedAbove
        exact mem_inside_of_isMagic isMagic (itself last (by simp))
          (mem_listing_of_walk step same listing walkedLast there (spelled ▸ foundLast) kept) within
      | false =>
        rw [← spelled] at foundLast
        exact mem_inside_of_isPlain isMagic (tidy last (by simp)).ne.1 foundLast within

end Glob

variable {host : Host} {base : PathName} {place : Location} {input : String}

/-- An input that is no pattern, or one that matches itself as it is written, in directories that may be
listed. -/
def NamesItself (host : Host) (place : Location) (input : String) : Prop :=
  Pattern.isMagic input = true →
    ((PathName.ofText input).isAbsolute = true → tidy input = input) ∧
      Glob.IsListed host (place.pathName.join (.ofText input)) ∧
      ∀ part ∈ (place.pathName.join (.ofText input)).parts, Glob.MatchesItself part

theorem patternOf_of_namesItself
    (isMagic : Pattern.isMagic input = true)
    (itself : NamesItself host place input) :
    patternOf place input = (place.pathName.join (.ofText input)).text := by
  unfold patternOf
  dsimp only
  split
  · next absolute =>
    rw [PathName.join, if_pos absolute]
    exact ((itself isMagic).1 absolute).symm
  · rfl

/-- The name of a file is among those that match it as a pattern if all of its parts match themselves. -/
theorem mem_of_expand_of_find
    (tree : host.root.IsTree)
    {name : PathName}
    (absolute : name.isAbsolute = true)
    (tidy : name.IsTidy)
    {bytes : List UInt8}
    (found : host.find name.text = .ok (.file bytes))
    (listed : Glob.IsListed host name)
    (itself : ∀ part ∈ name.parts, Glob.MatchesItself part)
    {room : Nat}
    {texts : List String}
    (outcome : Glob.expand host false room name.text.toList = .ok texts) :
    name.text ∈ texts := by
  obtain ⟨location, located, there⟩ := Host.find_eq_ok_iff.mp found
  obtain ⟨clean, short, walked⟩ := Host.locate_eq_ok_iff.mp located
  rw [Host.walk_partsOf_text tree absolute tidy] at walked
  have sound := fun part held => @PathName.notMem_of_mem_parts name absolute tidy clean part held
  have nonempty : name.parts ≠ [] := by
    intro none
    rw [none, Host.walk] at walked
    cases walked
    obtain ⟨entries, top⟩ := tree.exists_entries
    cases top.symm.trans there
  exact Glob.text_mem_expand tree absolute tidy sound short listed itself nonempty walked there
    (by simp) outcome

/-- An input that names a file stands for it among others, unless another name that it matches is refused
or there is too little room for what it stands for. -/
theorem mem_of_expandInput
    (tree : host.root.IsTree)
    (pure : Host.IsPure place)
    {bytes : List UInt8}
    (found : host.find (place.pathName.join (.ofText input)).text = .ok (.file bytes))
    (itself : NamesItself host place input) :
    match (expandInput host place.pathName input).result with
    | .ok names => place.pathName.join (.ofText input) ∈ names
    | .error failure => Pattern.isMagic input = true ∧ Breaks host place input failure := by
  have absolute := PathName.isAbsolute_join (rfl : place.pathName.isAbsolute = true)
    (PathName.ofText input)
  have tidy := (Host.isTidy_pathName pure).join (PathName.isTidy_ofText input)
  cases isMagic : Pattern.isMagic input with
  | false =>
    have other : host.isDirectoryAt (place.pathName.join (.ofText input)).text = .ok false := by
      simp only [Host.isDirectoryAt, Host.leadsTo, found]
      rfl
    rw [expandInput_of_isPlain isMagic, other]
    exact List.mem_cons_self
  | true =>
    obtain ⟨-, listed, parts⟩ := itself isMagic
    have pattern := patternOf_of_namesItself isMagic itself
    rw [expandInput_of_isMagic isMagic]
    cases expanded : Glob.expand host false host.room.directories (patternOf place input).toList with
    | error failure =>
      obtain ⟨location, located, -⟩ := Host.find_eq_ok_iff.mp found
      have cases := @Glob.expand_cases host false host.room.directories tree _
        (head?_patternOf place input)
      rw [expanded] at cases
      rw [glob, expanded]
      rcases cases with unclean | ⟨rfl, exceeds⟩
      · rw [pattern] at unclean
        exact absurd unclean (Host.locate_eq_ok_iff.mp located).1
      · exact ⟨rfl, .overrun (.pattern isMagic exceeds) rfl⟩
    | ok texts =>
      have globbed : glob host (patternOf place input) = .ok (sortTexts texts) := by
        rw [glob, expanded]
        rfl
      rw [globbed]
      rw [pattern] at expanded
      have among := mem_of_expand_of_find tree absolute tidy found listed parts expanded
      simp only [Except.bind]
      split
      · next names outcome =>
        have sorted := (perm_sortTexts texts).mem_iff.mpr among
        have matched := List.mem_map.mpr ⟨_, sorted, PathName.ofText_text absolute tidy⟩
        exact (mem_onlyFiles outcome).mpr ⟨matched, bytes, found⟩
      · next failure outcome =>
        obtain ⟨name, held, failed⟩ := onlyFiles_eq_error outcome
        obtain ⟨text, matched, rfl⟩ := List.mem_map.mp held
        exact ⟨trivial, .refusal (.matching isMagic globbed matched)
          (Host.leadsTo_eq_error_iff.mp failed)⟩

/-- A file that an input names is found by a scan that comes to its end, unless it is ignored.  The input
contributes it, unless it is a pattern and breaks the scan. -/
theorem scan_discovery
    (tree : host.root.IsTree)
    (resolved : host.resolve base = .ok place.pathName)
    {inputs : List String}
    (held : input ∈ inputs)
    {bytes : List UInt8}
    (found : host.find (place.pathName.join (.ofText input)).text = .ok (.file bytes))
    (itself : NamesItself host place input)
    (ignore : List String) :
    ∃ file, host.resolve (place.pathName.join (.ofText input)) = .ok file ∧
      (match contribution host place.pathName input with
        | .ok names => file ∈ names
        | .error failure => Pattern.isMagic input = true ∧ Breaks host place input failure) ∧
      (isIgnored ignore place.pathName file = false →
        match (scan host inputs ignore base).result with
        | .ok files => file ∈ files
        | .error failure =>
          ∃ other ∈ inputs, contribution host place.pathName other = .error failure) := by
  have pure := Host.isPure_of_resolve resolved
  have absolute := PathName.isAbsolute_join (rfl : place.pathName.isAbsolute = true)
    (PathName.ofText input)
  have tidy := (Host.isTidy_pathName pure).join (PathName.isTidy_ofText input)
  obtain ⟨location, located, -⟩ := Host.find_eq_ok_iff.mp found
  have reached := Host.resolve_of_locate tree absolute tidy located
  have contributes : match contribution host place.pathName input with
      | .ok names => location.pathName ∈ names
      | .error failure => Pattern.isMagic input = true ∧ Breaks host place input failure := by
    have stands := mem_of_expandInput tree pure found itself
    rw [contribution]
    cases outcome : (expandInput host place.pathName input).result with
    | error failure =>
      rw [outcome] at stands
      exact stands
    | ok names =>
      rw [outcome] at stands
      change match names.mapM host.resolve with
        | .ok files => location.pathName ∈ files
        | .error _ => _
      cases mapped : names.mapM host.resolve with
      | ok files => exact (mem_iff_of_mapM_eq_ok mapped).mpr ⟨_, stands, reached⟩
      | error failure =>
        obtain ⟨name, among, failed⟩ := exists_of_mapM_eq_error mapped
        obtain ⟨-, rfl⟩ := eq_join_of_resolve_eq_error tree pure outcome among failed
        rw [reached] at failed
        contradiction
  refine ⟨location.pathName, reached, contributes, fun kept => ?_⟩
  split
  · next files scanned =>
    obtain ⟨_, lists, known, contributed, rfl⟩ := exists_lists_of_scan scanned
    cases resolved.symm.trans known
    obtain ⟨names, itself⟩ := exists_value_of_mapM_eq_ok contributed held
    rw [itself] at contributes
    exact mem_selected_iff.mpr
      ⟨(mem_flatten_iff_of_contributed contributed).mpr ⟨input, held, names, itself, contributes⟩, kept⟩
  · next failure failed => exact exists_failure_of_scan resolved failed

/-! ## Names with characters of patterns -/

/-- A drawing whose name matches itself as a pattern, and one whose name does not. -/
def magical : Host :=
  FileNode.host (.directory [("a?.svg", .file []), ("a[1].svg", .file [])])

theorem isTree_magical : magical.root.IsTree := by decide

theorem resolve_magical_root : magical.resolve ⟨.slash, []⟩ = .ok (Location.pathName []) :=
  Host.resolve_root rfl

theorem find_magical :
    magical.find ((Location.pathName []).join (.ofText "a?.svg")).text = .ok (.file []) ∧
      magical.find ((Location.pathName []).join (.ofText "a[1].svg")).text = .ok (.file []) := by
  have spelled : ((Location.pathName []).join (.ofText "a?.svg")).text = "/" ++ "a?.svg" ∧
      ((Location.pathName []).join (.ofText "a[1].svg")).text = "/" ++ "a[1].svg" := by
    decide
  rw [spelled.1, spelled.2]
  exact ⟨Host.find_entry rfl rfl (by decide) rfl (by simp),
    Host.find_entry rfl rfl (by decide) rfl (by simp)⟩

theorem scan_discovery_of_magical :
    (magical.root.IsTree ∧ magical.resolve ⟨.slash, []⟩ = .ok (Location.pathName []) ∧
        magical.find ((Location.pathName []).join (.ofText "a?.svg")).text = .ok (.file []) ∧
        NamesItself magical [] "a?.svg") ∧
      ∃ file, magical.resolve ((Location.pathName []).join (.ofText "a?.svg")) = .ok file ∧
        match (scan magical ["a?.svg"] [] ⟨.slash, []⟩).result with
        | .ok files => file ∈ files
        | .error failure =>
          ∃ other ∈ ["a?.svg"], contribution magical (Location.pathName []) other = .error failure := by
  have itself : NamesItself magical [] "a?.svg" := by
    refine fun _ => ⟨by decide, ?_, by unfold Glob.MatchesItself; decide⟩
    intro above last below cut _
    have alone : ["a?.svg"] = above ++ last :: below := cut
    obtain rfl : above = [] := by
      rcases List.append_eq_singleton_iff.mp alone.symm with ⟨none, -⟩ | ⟨-, some⟩
      · exact none
      · exact absurd some (by simp)
    exact ⟨_, Host.entriesAt_root rfl rfl⟩
  obtain ⟨file, reached, -, finds⟩ := scan_discovery isTree_magical resolve_magical_root
    (List.mem_singleton.mpr rfl) find_magical.1 itself []
  exact ⟨⟨isTree_magical, resolve_magical_root, find_magical.1, itself⟩, file, reached, finds rfl⟩

theorem contribution_magical : contribution magical (Location.pathName []) "a[1].svg" = .ok [] := by
  have pattern : (patternOf [] "a[1].svg").toList = "/a[1].svg".toList := by decide
  have front : Glob.splitLast "/a[1].svg".toList = ("/".toList, "a[1].svg".toList) := by
    decide
  have directories : Glob.directoriesOf magical 899 "/a[1].svg".toList = .ok ["/"] := by
    rw [Glob.directoriesOf, front]
    decide
  have listed : magical.entriesAt "/" = .ok magical.root.entries := Host.entriesAt_root rfl rfl
  have within : Glob.inside magical false 899 "a[1].svg" "/" = .ok [] := by
    rw [Glob.inside, Glob.matching, Glob.listing, listed]
    decide
  have expanded : Glob.expand magical false (899 + 1) (patternOf [] "a[1].svg").toList = .ok [] := by
    rw [pattern]
    exact Glob.expand_of_directory directories (by rw [front, String.ofList_toList, within])
  have globbed : glob magical (patternOf [] "a[1].svg") = .ok [] := by
    rw [glob]
    exact congrArg _ expanded
  rw [contribution, expandInput_of_isMagic (by decide), globbed]
  rfl

/-- A file whose name does not match itself as a pattern is not found. -/
theorem scan_magical :
    magical.find ((Location.pathName []).join (.ofText "a[1].svg")).text = .ok (.file []) ∧
      (scan magical ["a[1].svg"] [] ⟨.slash, []⟩).result = .ok [] := by
  have contributed := mapM_eq_ok_iff.mpr (.cons contribution_magical .nil)
  rw [scan_result_of_resolve resolve_magical_root]
  exact ⟨find_magical.2, (congrArg _ contributed).trans rfl⟩

end Files
end MarkupLint
