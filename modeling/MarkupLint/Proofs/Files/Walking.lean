import MarkupLint.Proofs.Files.Naming
import MarkupLint.Proofs.Table

/-!
# Walking along names

A tree is proper if it could be a tree of files: the entries of a directory have different plain
names, and no name or target has a null character.  What a walk does at one part, that it stops where
something stands, and that what it does behind some parts depends only on where these lead and on how
many links are left to follow.
-/

namespace MarkupLint
namespace Files
namespace FileNode

/-! ## Proper trees -/

mutual

/-- Whether a tree could be one of files. -/
def isProper : FileNode → Bool
  | file _ => true
  | link target => !target.toList.contains '\x00'
  | directory entries => decide (Table.keys entries).Nodup && areProper entries

/-- Whether entries could be those of a directory, if their names are different. -/
def areProper : List (String × FileNode) → Bool
  | [] => true
  | (name, node) :: rest => decide (IsPlain name) && isProper node && areProper rest

end

theorem isProper_link_iff (target : String) :
    (link target).isProper = true ↔ '\x00' ∉ target.toList := by
  rw [isProper]
  simp

/-- A tree of files: a directory with entries as they could be. -/
structure IsTree (root : FileNode) : Prop where
  isProper : root.isProper = true
  isDirectory : root.isDirectory = true

instance (root : FileNode) : Decidable root.IsTree :=
  decidable_of_iff (root.isProper = true ∧ root.isDirectory = true)
    ⟨fun both => ⟨both.1, both.2⟩, fun tree => ⟨tree.isProper, tree.isDirectory⟩⟩

theorem IsTree.exists_entries {root : FileNode} (tree : root.IsTree) :
    ∃ entries, root.at? [] = some (directory entries) := by
  have top := tree.isDirectory
  cases root with
  | directory entries => exact ⟨entries, rfl⟩
  | _ => contradiction

theorem of_value?_of_isProper
    {entries : List (String × FileNode)}
    (proper : (directory entries).isProper = true)
    {name : String}
    {node : FileNode}
    (known : Table.value? entries name = some node) :
    IsPlain name ∧ node.isProper = true := by
  rw [isProper, Bool.and_eq_true, decide_eq_true_iff] at proper
  have held := (Table.value?_eq_some_iff proper.1).mp known
  have each := proper.2
  clear known proper
  induction entries with
  | nil => contradiction
  | cons entry rest ih =>
    obtain ⟨first, other⟩ := entry
    rw [areProper, Bool.and_eq_true, Bool.and_eq_true, decide_eq_true_iff] at each
    rcases List.mem_cons.mp held with same | held
    · cases same
      exact each.1
    · exact ih held each.2

variable {root : FileNode} {location place : Location} {part : String}

/-- What stands at a place below the root is an entry of a directory. -/
theorem exists_entries_of_at?_cons
    {node : FileNode}
    (there : root.at? (part :: location) = some node) :
    ∃ entries, root.at? location = some (directory entries) ∧
      Table.value? entries part = some node := by
  obtain ⟨parent, above, known⟩ := Option.bind_eq_some_iff.mp there
  cases parent with
  | directory entries => exact ⟨entries, above, known⟩
  | _ => contradiction

theorem at?_cons
    {entries : List (String × FileNode)}
    (above : root.at? location = some (directory entries))
    (part : String) :
    root.at? (part :: location) = Table.value? entries part := by
  rw [at?, above]
  rfl

theorem at?_append (below above : Location) :
    root.at? (below ++ above) = (root.at? above).bind fun node => node.at? below := by
  induction below with
  | nil => simp
  | cons name below ih =>
    rw [List.cons_append, at?, ih, Option.bind_assoc]
    rfl

/-- What a directory is in, is a directory. -/
theorem exists_entries_of_suffix
    {entries : List (String × FileNode)}
    (there : root.at? location = some (directory entries))
    (above : place <:+ location) :
    ∃ others, root.at? place = some (directory others) := by
  induction location generalizing entries with
  | nil => exact ⟨entries, List.suffix_nil.mp above ▸ there⟩
  | cons part rest ih =>
    rcases List.suffix_cons_iff.mp above with rfl | above
    · exact ⟨entries, there⟩
    · obtain ⟨others, parent, -⟩ := exists_entries_of_at?_cons there
      exact ih parent above

theorem isProper_of_at?
    (proper : root.isProper = true)
    {node : FileNode}
    (there : root.at? location = some node) :
    node.isProper = true := by
  induction location generalizing node with
  | nil =>
    cases there
    exact proper
  | cons part above ih =>
    obtain ⟨entries, parent, known⟩ := exists_entries_of_at?_cons there
    exact (of_value?_of_isProper (ih parent) known).2

theorem isPlain_of_at?_cons
    (proper : root.isProper = true)
    {node : FileNode}
    (there : root.at? (part :: location) = some node) :
    IsPlain part := by
  obtain ⟨entries, parent, known⟩ := exists_entries_of_at?_cons there
  exact (of_value?_of_isProper (isProper_of_at? proper parent) known).1

/-- Only plain names lead to what stands in a proper tree. -/
theorem isPlain_of_mem
    (proper : root.isProper = true)
    {node : FileNode}
    (there : root.at? location = some node)
    (held : part ∈ location) :
    IsPlain part := by
  induction location generalizing node with
  | nil => contradiction
  | cons first above ih =>
    rcases List.mem_cons.mp held with rfl | held
    · exact isPlain_of_at?_cons proper there
    · obtain ⟨entries, parent, -⟩ := exists_entries_of_at?_cons there
      exact ih parent held

end FileNode

namespace Host

open FileNode (exists_entries_of_at?_cons at?_cons exists_entries_of_suffix)

variable {host : Host} {location place : Location} {part : String} {rest : List String}

/-! ## Steps of a walk -/

/-- Where the target of a link at a place is read from. -/
def linkStart (target : String) (location : Location) : Location :=
  if isRooted target then [] else location

theorem linkStart_suffix (target : String) (location : Location) :
    linkStart target location <:+ location := by
  unfold linkStart
  split
  · exact List.nil_suffix
  · exact List.suffix_rfl

variable {followsLast : Bool} {links : Nat}

theorem walk_idle
    {entries : List (String × FileNode)}
    (above : host.root.at? location = some (.directory entries))
    (admitted : host.admits location part = true)
    (idle : part = "" ∨ part = ".") :
    host.walk followsLast links location (part :: rest) =
      host.walk followsLast links location rest := by
  rw [walk, above]
  simp [admitted, idle]

theorem walk_up
    {entries : List (String × FileNode)}
    (above : host.root.at? location = some (.directory entries))
    (admitted : host.admits location ".." = true) :
    host.walk followsLast links location (".." :: rest) =
      host.walk followsLast links (location.drop 1) rest := by
  rw [walk, above]
  simp [admitted]

/-- A part that leads to an entry if there is one with its name. -/
structure IsStep (part : String) : Prop where
  isTelling : ¬(part = "" ∨ part = ".")
  isBelow : part ≠ ".."

instance (part : String) : Decidable (IsStep part) :=
  decidable_of_iff (¬(part = "" ∨ part = ".") ∧ part ≠ "..")
    ⟨fun both => ⟨both.1, both.2⟩, fun step => ⟨step.isTelling, step.isBelow⟩⟩

theorem IsStep.of_isPlain (plain : IsPlain part) : IsStep part where
  isTelling := not_or.mpr plain.ne
  isBelow := plain.isBelow

theorem IsStep.admits_eq (step : IsStep part) (host : Host) (location : Location) :
    host.admits location part = host.searches location := by
  have named : part ≠ "" := fun empty => step.isTelling (.inl empty)
  simp [admits, named]

/-- What may be looked up at a step is looked up in a directory that may be searched. -/
theorem IsStep.searches_of_admits
    (step : IsStep part)
    (admitted : ¬(!host.admits location part) = true) :
    host.searches location = true := by
  rw [← step.admits_eq]
  simpa using admitted

theorem walk_enter
    (step : IsStep part)
    (searched : host.searches location = true)
    (short : part.utf8ByteSize ≤ partLimit)
    {node : FileNode}
    (there : host.root.at? (part :: location) = some node)
    (unlinked : ∀ target, node ≠ .link target) :
    host.walk followsLast links location (part :: rest) =
      host.walk followsLast links (part :: location) rest := by
  obtain ⟨entries, above, known⟩ := exists_entries_of_at?_cons there
  rw [walk, above]
  simp only [step.admits_eq, searched, Bool.not_true, Bool.false_eq_true, if_false, Bool.or_eq_true,
    decide_eq_true_iff, if_neg step.isTelling, if_neg step.isBelow, if_neg (Nat.not_lt.mpr short),
    known]

theorem walk_follow
    (step : IsStep part)
    (searched : host.searches location = true)
    (short : part.utf8ByteSize ≤ partLimit)
    {target : String}
    (there : host.root.at? (part :: location) = some (.link target))
    (goes : followsLast = true ∨ rest ≠ []) :
    host.walk followsLast (links + 1) location (part :: rest) =
      host.walk followsLast links (linkStart target location) (partsOf target ++ rest) := by
  obtain ⟨entries, above, known⟩ := exists_entries_of_at?_cons there
  have on : ¬(rest.isEmpty && !followsLast) = true := by
    rcases goes with goes | goes <;> simp [goes]
  rw [walk, above]
  simp only [step.admits_eq, searched, Bool.not_true, Bool.false_eq_true, if_false, Bool.or_eq_true,
    decide_eq_true_iff, if_neg step.isTelling, if_neg step.isBelow, if_neg (Nat.not_lt.mpr short),
    known, if_neg on]
  rfl

/-! ## Walks that lead somewhere -/

/-- Behind parts that lead to a place, a walk goes on from there with the links that are left. -/
theorem walk_continues
    {parts : List String}
    (walked : host.walk true links location parts = .ok place) :
    ∃ left ≤ links, ∀ followsLast rest, (followsLast = true ∨ rest ≠ []) →
      host.walk followsLast links location (parts ++ rest) =
        host.walk followsLast left place rest := by
  fun_induction Host.walk host true links location parts with
  | case1 links location =>
    cases walked
    exact ⟨links, le_rfl, fun _ _ _ => rfl⟩
  | case3 links location part parts entries above admitted idle ih =>
    obtain ⟨left, fewer, on⟩ := ih walked
    refine ⟨left, fewer, fun followsLast rest goes => ?_⟩
    rw [List.cons_append, walk_idle above (by simpa using admitted) (by simpa using idle),
      on followsLast rest goes]
  | case4 links location parts entries above admitted _ ih =>
    obtain ⟨left, fewer, on⟩ := ih walked
    refine ⟨left, fewer, fun followsLast rest goes => ?_⟩
    rw [List.cons_append, walk_up above (by simpa using admitted), on followsLast rest goes]
  | case7 => simp at *
  | case9 location part parts entries above admitted telling below short target known _ links ih =>
    obtain ⟨left, fewer, on⟩ := ih walked
    have there := (at?_cons above part).trans known
    have step : IsStep part := ⟨by simpa using telling, below⟩
    have searched := step.searches_of_admits admitted
    refine ⟨left, Nat.le_succ_of_le fewer, fun followsLast rest goes => ?_⟩
    have more : followsLast = true ∨ parts ++ rest ≠ [] :=
      goes.imp_right fun nonempty => List.append_ne_nil_of_right_ne_nil _ nonempty
    rw [List.cons_append, walk_follow step searched (Nat.not_lt.mp short) there more,
      ← List.append_assoc]
    exact on followsLast rest goes
  | case10 links location part parts entries above admitted telling below short node unlinked known ih =>
    obtain ⟨left, fewer, on⟩ := ih walked
    have there := (at?_cons above part).trans known
    have step : IsStep part := ⟨by simpa using telling, below⟩
    have searched := step.searches_of_admits admitted
    refine ⟨left, fewer, fun followsLast rest goes => ?_⟩
    rw [List.cons_append, walk_enter step searched (Nat.not_lt.mp short) there unlinked,
      on followsLast rest goes]
  | _ => contradiction

/-- What a walk along parts leads through, their first parts lead to. -/
theorem exists_walk_of_append
    {parts : List String}
    (walked : host.walk followsLast links location (parts ++ rest) = .ok place)
    (goes : rest ≠ []) :
    ∃ turn, host.walk true links location parts = .ok turn ∧
      ∃ left ≤ links, host.walk followsLast left turn rest = .ok place := by
  have reached : ∃ turn, host.walk true links location parts = .ok turn := by
    fun_induction Host.walk host true links location parts with
    | case1 links location => exact ⟨location, rfl⟩
    | case3 links location part parts entries above admitted idle ih =>
      rw [List.cons_append, walk_idle above (by simpa using admitted) (by simpa using idle)] at walked
      exact ih walked
    | case4 links location parts entries above admitted _ ih =>
      rw [List.cons_append, walk_up above (by simpa using admitted)] at walked
      exact ih walked
    | case7 => simp at *
    | case9 location part parts entries above admitted telling below short target known _ links ih =>
      have there := (at?_cons above part).trans known
      have step : IsStep part := ⟨by simpa using telling, below⟩
      have searched := step.searches_of_admits admitted
      have more : parts ++ rest ≠ [] := List.append_ne_nil_of_right_ne_nil _ goes
      rw [List.cons_append, walk_follow step searched (Nat.not_lt.mp short) there (.inr more),
        ← List.append_assoc] at walked
      exact ih walked
    | case10 links location part parts entries above admitted telling below short node unlinked known ih =>
      have there := (at?_cons above part).trans known
      have step : IsStep part := ⟨by simpa using telling, below⟩
      have searched := step.searches_of_admits admitted
      rw [List.cons_append, walk_enter step searched (Nat.not_lt.mp short) there unlinked] at walked
      exact ih walked
    | _ =>
      rw [List.cons_append, walk] at walked
      grind [List.isEmpty_iff, List.append_eq_nil_iff]
  obtain ⟨turn, reached⟩ := reached
  obtain ⟨left, fewer, on⟩ := walk_continues reached
  exact ⟨turn, reached, left, fewer, (on followsLast rest (.inr goes)).symm.trans walked⟩

theorem exists_entries_of_walk_cons
    (walked : host.walk followsLast links location (part :: rest) = .ok place) :
    ∃ entries, host.root.at? location = some (.directory entries) := by
  rw [walk] at walked
  split at walked
  · next entries above => exact ⟨entries, above⟩
  · contradiction

/-- A walk leads from a directory to an entry. -/
theorem exists_entry_of_walk_cons
    (step : IsStep part)
    (walked : host.walk followsLast links location (part :: rest) = .ok place) :
    host.searches location = true ∧ part.utf8ByteSize ≤ partLimit ∧
      ∃ node, host.root.at? (part :: location) = some node := by
  obtain ⟨entries, above⟩ := exists_entries_of_walk_cons walked
  rw [walk, above] at walked
  simp only [Bool.or_eq_true, decide_eq_true_iff, if_neg step.isTelling, if_neg step.isBelow]
    at walked
  split at walked
  · contradiction
  · next admitted =>
    split at walked
    · contradiction
    · next short =>
      refine ⟨step.searches_of_admits admitted, Nat.not_lt.mp short, ?_⟩
      rw [at?_cons above]
      cases known : Table.value? entries part with
      | none =>
        rw [known] at walked
        contradiction
      | some node => exact ⟨node, rfl⟩

/-- Where a walk leads somewhere, one that does not follow a link at its end does so too. -/
theorem exists_walk_unfollowed
    {parts : List String}
    {start : FileNode}
    (begins : host.root.at? location = some start)
    (walked : host.walk true links location parts = .ok place) :
    ∃ turn node, host.walk false links location parts = .ok turn ∧ host.root.at? turn = some node := by
  fun_induction Host.walk host true links location parts generalizing start with
  | case1 links location =>
    cases walked
    exact ⟨_, start, by rw [walk], begins⟩
  | case3 links location part parts entries above admitted idle ih =>
    rw [walk_idle above (by simpa using admitted) (by simpa using idle)]
    exact ih begins walked
  | case4 links location parts entries above admitted _ ih =>
    obtain ⟨others, higher⟩ := exists_entries_of_suffix above (List.drop_suffix 1 location)
    rw [walk_up above (by simpa using admitted)]
    exact ih higher walked
  | case7 => simp at *
  | case9 location part parts entries above admitted telling below short target known _ links ih =>
    have there := (at?_cons above part).trans known
    have step : IsStep part := ⟨by simpa using telling, below⟩
    have searched := step.searches_of_admits admitted
    by_cases last : parts = []
    · refine ⟨part :: location, .link target, ?_, there⟩
      rw [last, walk, above]
      simp [step.admits_eq, searched, step.isTelling, step.isBelow, short, known]
    · obtain ⟨others, begins⟩ := exists_entries_of_suffix above (linkStart_suffix target location)
      rw [walk_follow step searched (Nat.not_lt.mp short) there (.inr last)]
      exact ih begins walked
  | case10 links location part parts entries above admitted telling below short node unlinked known ih =>
    have there := (at?_cons above part).trans known
    have step : IsStep part := ⟨by simpa using telling, below⟩
    have searched := step.searches_of_admits admitted
    rw [walk_enter step searched (Nat.not_lt.mp short) there unlinked]
    exact ih there walked
  | _ => contradiction

/-- Where a walk ends, something stands, and no link unless the last part is one and not followed. -/
theorem exists_at?_of_walk
    {parts : List String}
    (walked : host.walk followsLast links location parts = .ok place)
    {start : FileNode}
    (begins : host.root.at? location = some start)
    (unlinked : ∀ target, start ≠ .link target) :
    ∃ node, host.root.at? place = some node ∧ (followsLast = true → ∀ target, node ≠ .link target) := by
  fun_induction Host.walk host followsLast links location parts generalizing start with
  | case1 =>
    cases walked
    exact ⟨start, begins, fun _ => unlinked⟩
  | case3 links location part parts entries above admitted idle ih => exact ih walked begins unlinked
  | case4 links location parts entries above admitted _ ih =>
    obtain ⟨others, higher⟩ := exists_entries_of_suffix above (List.drop_suffix 1 location)
    exact ih walked higher (by simp)
  | case7 links location part parts entries above admitted telling below short target known last =>
    cases walked
    refine ⟨_, (at?_cons above part).trans known, fun follows => ?_⟩
    simp [follows] at last
  | case9 location part parts entries above admitted telling below short target known _ links ih =>
    obtain ⟨others, begins⟩ := exists_entries_of_suffix above (linkStart_suffix target location)
    exact ih walked begins (by simp)
  | case10 links location part parts entries above admitted telling below short node other known ih =>
    exact ih walked ((at?_cons above part).trans known) other
  | _ => contradiction

/-! ## Looking up names -/

theorem walk_append_of_idle
    {entries : List (String × FileNode)}
    (above : host.root.at? location = some (.directory entries))
    {idle : List String}
    (empty : ∀ part ∈ idle, part = "") :
    host.walk followsLast links location (idle ++ rest) =
      host.walk followsLast links location rest := by
  induction idle with
  | nil => rfl
  | cons part others ih =>
    rw [List.forall_mem_cons] at empty
    rw [List.cons_append, walk_idle above (by simp [admits, empty.1]) (.inl empty.1), ih empty.2]

variable {name : PathName} {path : String}

theorem locate_eq_ok_iff :
    host.locate followsLast path = .ok place ↔
      '\x00' ∉ path.toList ∧ path.utf8ByteSize ≤ nameLimit ∧
        host.walk followsLast linkLimit [] (partsOf path) = .ok place := by
  unfold locate
  split
  · next unclean => simpa using fun clean => absurd unclean (by simpa using clean)
  · next clean =>
    split
    · next long => simpa using fun _ short => absurd long (Nat.not_lt.mpr short)
    · next short =>
      rw [List.contains_iff_mem] at clean
      simp only [clean, not_false_eq_true, Nat.not_lt.mp short, true_and]

theorem find_eq_ok_iff {node : FileNode} :
    host.find path = .ok node ↔
      ∃ place, host.locate true path = .ok place ∧ host.root.at? place = some node := by
  unfold find
  cases located : host.locate true path with
  | error fault => simp
  | ok place =>
    cases there : host.root.at? place <;> simp [there]

theorem entriesAt_eq_ok_iff {entries : List (String × FileNode)} :
    host.entriesAt path = .ok entries ↔
      ∃ place, host.locate true path = .ok place ∧
        host.root.at? place = some (.directory entries) ∧ host.lists place = true := by
  unfold entriesAt
  cases located : host.locate true path with
  | error fault => simp
  | ok place =>
    simp only [Except.ok.injEq, exists_eq_left']
    split
    · next others there => cases host.lists place <;> simp [there]
    · next other unlisted there => simpa [there] using fun same => absurd same (unlisted entries)
    · next there => simp [there]

/-- What is found is an entry. -/
theorem hasEntry_of_find
    {node : FileNode}
    (found : host.find path = .ok node) :
    host.hasEntry path = true := by
  obtain ⟨turn, located, -⟩ := find_eq_ok_iff.mp found
  obtain ⟨clean, short, walked⟩ := locate_eq_ok_iff.mp located
  obtain ⟨other, entry, reached, there⟩ := exists_walk_unfollowed (FileNode.at?_nil host.root) walked
  rw [hasEntry, locate_eq_ok_iff.mpr ⟨clean, short, reached⟩]
  simp [there]

/-- Walking along parts meets no null character. -/
theorem walk_ne_nulCharacter
    (host : Host)
    (followsLast : Bool)
    (links : Nat)
    (location : Location)
    (parts : List String) :
    host.walk followsLast links location parts ≠ .error .nulCharacter := by
  fun_induction Host.walk host followsLast links location parts <;> simp_all

/-- What is looked up fails as a walk along its parts does. -/
theorem find_ne_error
    {fault : PathFault}
    (clean : '\x00' ∉ path.toList)
    (short : fault ≠ .nameTooLong)
    (missing : fault ≠ .notFound)
    (walked : host.walk true linkLimit [] (partsOf path) ≠ .error fault) :
    host.find path ≠ .error fault := by
  have located : host.locate true path ≠ .error fault := by
    unfold locate
    rw [if_neg (by simpa using clean)]
    split
    · simpa using short.symm
    · exact walked
  unfold find
  split
  · next other failed =>
    rintro ⟨⟩
    exact located failed
  · split
    · simp
    · simpa using missing.symm

theorem find_ne_nulCharacter
    (host : Host)
    (clean : '\x00' ∉ path.toList) :
    host.find path ≠ .error .nulCharacter :=
  find_ne_error clean (by simp) (by simp) (host.walk_ne_nulCharacter _ _ _ _)

theorem locate_ne_nulCharacter
    (host : Host)
    (followsLast : Bool)
    (clean : '\x00' ∉ path.toList) :
    host.locate followsLast path ≠ .error .nulCharacter := by
  unfold locate
  rw [if_neg (by simpa using clean)]
  split
  · simp
  · exact host.walk_ne_nulCharacter _ _ _ _

/-- The text of a name is walked along as its parts are. -/
theorem walk_partsOf_text
    (tree : host.root.IsTree)
    (absolute : name.isAbsolute = true)
    (tidy : name.IsTidy) :
    host.walk followsLast links [] (partsOf name.text) =
      host.walk followsLast links [] name.parts := by
  obtain ⟨entries, top⟩ := tree.exists_entries
  obtain ⟨idle, -, empty, known⟩ := PathName.partsOf_text absolute tidy
  rw [known, walk_append_of_idle top empty]

/-- A name is looked up along its parts. -/
theorem locate_text
    (tree : host.root.IsTree)
    (absolute : name.isAbsolute = true)
    (tidy : name.IsTidy)
    (clean : '\x00' ∉ name.text.toList)
    (short : name.text.utf8ByteSize ≤ nameLimit) :
    host.locate followsLast name.text = host.walk followsLast linkLimit [] name.parts := by
  rw [locate, if_neg (by simpa using clean), if_neg (Nat.not_lt.mpr short),
    walk_partsOf_text tree absolute tidy]

theorem find_text
    (tree : host.root.IsTree)
    (absolute : name.isAbsolute = true)
    (tidy : name.IsTidy)
    (clean : '\x00' ∉ name.text.toList)
    (short : name.text.utf8ByteSize ≤ nameLimit)
    (walked : host.walk true linkLimit [] name.parts = .ok place)
    {node : FileNode}
    (there : host.root.at? place = some node) :
    host.find name.text = .ok node :=
  find_eq_ok_iff.mpr ⟨place, (locate_text tree absolute tidy clean short).trans walked, there⟩

/-- A link whose target begins with the link itself leads nowhere. -/
theorem walk_of_circle
    (step : IsStep part)
    (searched : host.searches location = true)
    (short : part.utf8ByteSize ≤ partLimit)
    {target : String}
    (there : host.root.at? (part :: location) = some (.link target))
    (relative : isRooted target = false)
    {more : List String}
    (begins : partsOf target = part :: more)
    (links : Nat)
    (rest : List String) :
    host.walk true links location (part :: rest) = .error .tooManyLinks := by
  induction links generalizing rest with
  | zero =>
    obtain ⟨entries, above, known⟩ := exists_entries_of_at?_cons there
    rw [walk, above]
    simp [step.admits_eq, searched, step.isTelling, step.isBelow, Nat.not_lt.mpr short, known]
  | succ links ih =>
    rw [walk_follow step searched short there (.inl rfl), linkStart, relative, begins]
    exact ih (more ++ rest)

/-- The name of such a link in the root directory leads nowhere. -/
theorem find_of_circle
    (tree : host.root.IsTree)
    (searched : host.searches [] = true)
    (plain : IsPlain part)
    {target : String}
    (there : host.root.at? [part] = some (.link target))
    (relative : isRooted target = false)
    {more : List String}
    (begins : partsOf target = part :: more) :
    host.find (PathName.text ⟨.slash, [part]⟩) = .error .tooManyLinks := by
  have tidy : PathName.IsTidy ⟨.slash, [part]⟩ := by
    intro other held
    rw [List.mem_singleton.mp held]
    exact ⟨plain.isTelling, plain.isWhole⟩
  have clean : '\x00' ∉ (PathName.text ⟨.slash, [part]⟩).toList := by
    refine PathName.notMem_text rfl fun other held => ?_
    rw [List.mem_singleton.mp held]
    exact plain.isClean
  have short : (PathName.text ⟨.slash, [part]⟩).utf8ByteSize ≤ nameLimit := by
    have bound := plain.isShort
    rw [PathName.text_entry, String.utf8ByteSize_append, show "/".utf8ByteSize = 1 by decide]
    simp only [partLimit, nameLimit] at bound ⊢
    omega
  rw [find, locate_text tree rfl tidy clean short,
    walk_of_circle (.of_isPlain plain) searched plain.isShort there relative begins]

end Host
end Files
end MarkupLint
