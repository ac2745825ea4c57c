import MarkupLint.Proofs.Files.Walking

/-!
# What names resolve to

Following every link on the way, a name comes to an end at one place, or its links lead into a circle.
Resolving a name that comes to an end gives the name of that place, which leads through no link, unless
there are more links on the way than there is room for.  A walk that leads somewhere comes to its end at
the same place.
-/

namespace MarkupLint
namespace Files
namespace Host

/-- Following parts from a location, with the given number of links on the way, comes to its end at a
place.  A part that leads to nothing is passed as it is. -/
inductive Ends (host : Host) : Nat → Location → List String → Location → Prop
  | stop (location : Location) : Ends host 0 location [] location
  | idle {count location part rest place} :
    (part = "" ∨ part = ".") → Ends host count location rest place →
    Ends host count location (part :: rest) place
  | up {count location rest place} :
    Ends host count (location.drop 1) rest place →
    Ends host count location (".." :: rest) place
  | enter {count location part rest place} :
    IsStep part → '\x00' ∉ part.toList →
    (host.linkAt? (part :: location) = none) →
    Ends host count (part :: location) rest place →
    Ends host count location (part :: rest) place
  | follow {inner outer location part target rest turn place} :
    IsStep part → '\x00' ∉ part.toList →
    host.linkAt? (part :: location) = some target →
    Ends host inner (linkStart target location) (partsOf target) turn →
    Ends host outer turn rest place →
    Ends host (inner + outer + 1) location (part :: rest) place

namespace Ends

variable {host : Host} {count : Nat} {location place : Location} {parts rest : List String}

/-- Parts come to one end only. -/
theorem unique
    (first : Ends host count location parts place)
    {other : Nat}
    {others : Location}
    (second : Ends host other location parts others) :
    count = other ∧ place = others := by
  induction first generalizing other others with
  | stop =>
    cases second
    exact ⟨rfl, rfl⟩
  | idle idle _ ih =>
    cases second with
    | idle _ on => exact ih on
    | up => simp at idle
    | enter step => exact absurd idle step.isTelling
    | follow step => exact absurd idle step.isTelling
  | up _ ih =>
    cases second with
    | idle idle => simp at idle
    | up on => exact ih on
    | enter step => exact absurd rfl step.isBelow
    | follow step => exact absurd rfl step.isBelow
  | enter step _ unlinked _ ih =>
    cases second with
    | idle idle => exact absurd idle step.isTelling
    | up => exact absurd rfl step.isBelow
    | enter _ _ _ on => exact ih on
    | follow _ _ there => cases unlinked.symm.trans there
  | follow step _ there _ _ inside behind =>
    cases second with
    | idle idle => exact absurd idle step.isTelling
    | up => exact absurd rfl step.isBelow
    | enter _ _ unlinked => cases unlinked.symm.trans there
    | follow _ _ here within on =>
      cases there.symm.trans here
      obtain ⟨rfl, rfl⟩ := inside within
      obtain ⟨rfl, rfl⟩ := behind on
      exact ⟨rfl, rfl⟩

/-- Parts that come to an end do so piece by piece. -/
theorem of_append (ends : Ends host count location (parts ++ rest) place) :
    ∃ first second turn, first + second = count ∧ Ends host first location parts turn ∧
      Ends host second turn rest place := by
  induction parts generalizing count location with
  | nil => exact ⟨0, count, location, Nat.zero_add _, .stop location, ends⟩
  | cons part parts ih =>
    cases ends with
    | idle idle on =>
      obtain ⟨first, second, turn, total, early, late⟩ := ih on
      exact ⟨first, second, turn, total, .idle idle early, late⟩
    | up on =>
      obtain ⟨first, second, turn, total, early, late⟩ := ih on
      exact ⟨first, second, turn, total, .up early, late⟩
    | enter step clean unlinked on =>
      obtain ⟨first, second, turn, total, early, late⟩ := ih on
      exact ⟨first, second, turn, total, .enter step clean unlinked early, late⟩
    | follow step clean there inside on =>
      obtain ⟨first, second, turn, total, early, late⟩ := ih on
      exact ⟨_, second, turn, by omega, .follow step clean there inside early, late⟩

end Ends

/-! ## Places that are reached -/

variable {host : Host} {location place : Location} {part : String}

theorem reaches_of_suffix
    (reached : host.reaches location = true)
    (above : place <:+ location) :
    host.reaches place = true := by
  induction location with
  | nil => rwa [List.suffix_nil.mp above]
  | cons part rest ih =>
    rcases List.suffix_cons_iff.mp above with rfl | above
    · exact reached
    · rw [reaches, Bool.and_eq_true] at reached
      exact ih reached.2 above

theorem reaches_cons
    (searched : host.searches location = true)
    (reached : host.reaches location = true)
    (part : String) :
    host.reaches (part :: location) = true := by
  rw [reaches, searched, reached]
  rfl

theorem linkAt?_eq_some_iff {target : String} :
    host.linkAt? location = some target ↔
      host.root.at? location = some (.link target) ∧ host.reaches location = true := by
  unfold linkAt?
  split
  · next other there => simp [there, and_comm]
  · next unlinked => simpa using fun there => absurd there (unlinked target)

theorem linkAt?_of_at?
    {node : FileNode}
    (there : host.root.at? location = some node)
    (unlinked : ∀ target, node ≠ .link target) :
    host.linkAt? location = none := by
  rw [Option.eq_none_iff_forall_ne_some]
  intro target known
  exact unlinked target (Option.some.inj (there.symm.trans (linkAt?_eq_some_iff.mp known).1))

/-- A walk that leads somewhere comes to its end there. -/
theorem Ends.of_walk
    (proper : host.root.isProper = true)
    {links : Nat}
    {parts : List String}
    (walked : host.walk true links location parts = .ok place)
    (reached : host.reaches location = true) :
    ∃ count ≤ links, Ends host count location parts place := by
  -- Every directory on the way is searched, so that the links on the way may be looked up.
  fun_induction Host.walk host true links location parts with
  | case1 links location =>
    cases walked
    exact ⟨0, Nat.zero_le _, .stop _⟩
  | case3 links location part parts entries above admitted idle ih =>
    obtain ⟨count, few, on⟩ := ih walked reached
    exact ⟨count, few, .idle (by simpa using idle) on⟩
  | case4 links location parts entries above admitted _ ih =>
    obtain ⟨count, few, on⟩ := ih walked (reaches_of_suffix reached (List.drop_suffix 1 location))
    exact ⟨count, few, .up on⟩
  | case7 => simp at *
  | case9 location part parts entries above admitted telling below short target known _ links ih =>
    have there := (FileNode.at?_cons above part).trans known
    have step : IsStep part := ⟨by simpa using telling, below⟩
    have higher := reaches_cons (step.searches_of_admits admitted) reached part
    obtain ⟨count, few, on⟩ :=
      ih walked (reaches_of_suffix reached (linkStart_suffix target location))
    obtain ⟨first, second, turn, total, inside, behind⟩ := on.of_append
    exact ⟨_, by omega, .follow step (FileNode.isPlain_of_at?_cons proper there).isClean
      (linkAt?_eq_some_iff.mpr ⟨there, higher⟩) inside behind⟩
  | case10 links location part parts entries above admitted telling below short node unlinked known ih =>
    have there := (FileNode.at?_cons above part).trans known
    have step : IsStep part := ⟨by simpa using telling, below⟩
    have higher := reaches_cons (step.searches_of_admits admitted) reached part
    obtain ⟨count, few, on⟩ := ih walked higher
    exact ⟨count, few, .enter step (FileNode.isPlain_of_at?_cons proper there).isClean
      (linkAt?_of_at? there unlinked) on⟩
  | _ => contradiction

/-! ## Places without links -/

/-- No place on the way to this one is a link, as far as it is reached. -/
def IsFree (host : Host) (location : Location) : Prop :=
  ∀ above, above <:+ location → host.linkAt? above = none

/-- Only parts with a property lead to a place. -/
def IsReached (property : String → Prop) (location : Location) : Prop :=
  ∀ part ∈ location, IsStep part ∧ property part

/-- The parts that lead to a place could be names of entries. -/
def IsPure (location : Location) : Prop :=
  IsReached (fun part => '\x00' ∉ part.toList ∧ '/' ∉ part.toList) location

theorem IsFree.of_suffix (free : host.IsFree location) (above : place <:+ location) :
    host.IsFree place :=
  fun _ higher => free _ (higher.trans above)

theorem IsFree.cons
    {part : String}
    (free : host.IsFree location)
    (unlinked : host.linkAt? (part :: location) = none) :
    host.IsFree (part :: location) := by
  intro above higher
  rcases List.suffix_cons_iff.mp higher with rfl | higher
  · exact unlinked
  · exact free above higher

theorem IsPure.of_suffix (pure : IsPure location) (above : place <:+ location) : IsPure place :=
  fun part held => pure part (above.subset held)

namespace Ends

variable {count : Nat} {parts : List String}

theorem isFree
    (ends : Ends host count location parts place)
    (free : host.IsFree location) :
    host.IsFree place := by
  induction ends with
  | stop => exact free
  | idle _ _ ih => exact ih free
  | up _ ih => exact ih (free.of_suffix (List.drop_suffix 1 _))
  | enter _ _ unlinked _ ih => exact ih (free.cons unlinked)
  | follow _ _ _ _ _ inside behind => exact behind (inside (free.of_suffix (linkStart_suffix _ _)))

theorem isPure
    (ends : Ends host count location parts place)
    (whole : ∀ part ∈ parts, '/' ∉ part.toList)
    (pure : IsPure location) :
    IsPure place := by
  induction ends with
  | stop => exact pure
  | idle _ _ ih => exact ih (List.forall_mem_cons.mp whole).2 pure
  | up _ ih => exact ih (List.forall_mem_cons.mp whole).2 (pure.of_suffix (List.drop_suffix 1 _))
  | enter step clean _ _ ih =>
    obtain ⟨first, others⟩ := List.forall_mem_cons.mp whole
    exact ih others (List.forall_mem_cons.mpr ⟨⟨step, clean, first⟩, pure⟩)
  | follow _ _ _ _ _ inside behind =>
    refine behind (List.forall_mem_cons.mp whole).2 (inside ?_ ?_)
    · exact fun part held => (notMem_of_mem_partsOf held).1
    · exact pure.of_suffix (linkStart_suffix _ _)

/-- The parts of a place without links come to their end at it. -/
theorem of_isFree
    {parts : List String}
    (free : host.IsFree (parts.reverse ++ location))
    (pure : IsPure (parts.reverse ++ location)) :
    Ends host 0 location parts (parts.reverse ++ location) := by
  induction parts generalizing location with
  | nil => exact .stop location
  | cons part rest ih =>
    rw [List.reverse_cons, List.append_assoc, List.singleton_append] at free pure ⊢
    obtain ⟨step, clean, -⟩ := pure part (by simp)
    exact .enter step clean (free _ (List.suffix_append _ _)) (ih free pure)

end Ends

/-! ## The number of links -/

mutual

/-- The places of the links below a node at a place. -/
def linksBelow (location : Location) : FileNode → List Location
  | .file _ => []
  | .link _ => [location]
  | .directory entries => linksOf location entries

/-- The places of the links among entries of a directory at a place, and below them. -/
def linksOf (location : Location) : List (String × FileNode) → List Location
  | [] => []
  | (name, node) :: rest => linksBelow (name :: location) node ++ linksOf location rest

end

mutual

theorem length_linksBelow_le_size (location : Location) :
    ∀ node : FileNode, (linksBelow location node).length ≤ node.size
  | .file _ => by simp [linksBelow, FileNode.size]
  | .link _ => by simp [linksBelow, FileNode.size]
  | .directory entries => by
    have inside := length_linksOf_le_sizeOfEntries location entries
    rw [linksBelow, FileNode.size]
    omega

theorem length_linksOf_le_sizeOfEntries (location : Location) :
    ∀ entries, (linksOf location entries).length ≤ FileNode.sizeOfEntries entries
  | [] => by simp [linksOf, FileNode.sizeOfEntries]
  | (name, node) :: rest => by
    have inside := length_linksBelow_le_size (name :: location) node
    have behind := length_linksOf_le_sizeOfEntries location rest
    rw [linksOf, FileNode.sizeOfEntries, List.length_append]
    omega

end

theorem linksBelow_subset_linksOf
    {entries : List (String × FileNode)}
    {name : String}
    {node : FileNode}
    (known : Table.value? entries name = some node) :
    linksBelow (name :: location) node ⊆ linksOf location entries := by
  induction entries with
  | nil => contradiction
  | cons entry rest ih =>
    obtain ⟨first, other⟩ := entry
    rw [linksOf]
    by_cases same : name = first
    · subst same
      rw [Table.value?, List.lookup_cons_self, Option.some.injEq] at known
      rw [known]
      exact List.subset_append_left _ _
    · rw [Table.value?, List.lookup_cons, beq_false_of_ne same] at known
      exact List.subset_append_of_subset_right _ (ih known)

theorem linksBelow_subset
    {node : FileNode}
    (there : host.root.at? location = some node) :
    linksBelow location node ⊆ linksBelow [] host.root := by
  induction location generalizing node with
  | nil =>
    cases there
    exact List.Subset.refl _
  | cons name above ih =>
    obtain ⟨entries, parent, known⟩ := FileNode.exists_entries_of_at?_cons there
    have higher := ih parent
    rw [linksBelow] at higher
    exact List.Subset.trans (linksBelow_subset_linksOf known) higher

/-- Different links are not more than what there is in the tree. -/
theorem length_le_size_of_links
    {links : List Location}
    (distinct : links.Nodup)
    (each : ∀ location ∈ links, ∃ target, host.linkAt? location = some target) :
    links.length ≤ host.root.size := by
  have within : links ⊆ linksBelow [] host.root := by
    intro location held
    obtain ⟨target, known⟩ := each location held
    exact linksBelow_subset (linkAt?_eq_some_iff.mp known).1 (by simp [linksBelow])
  exact (distinct.length_le_of_subset within).trans (length_linksBelow_le_size [] host.root)

/-! ## Following names to their ends -/

/-- Following the link at a place leads to another place, with the given number of links on the way. -/
def Follows (host : Host) (source : Location) (count : Nat) (turn : Location) : Prop :=
  ∃ part location target, source = part :: location ∧ host.linkAt? source = some target ∧
    Ends host count (linkStart target location) (partsOf target) turn

theorem Follows.unique
    {first second : Nat}
    {turn : Location}
    (one : host.Follows location first place)
    (other : host.Follows location second turn) :
    first = second ∧ place = turn := by
  obtain ⟨part, above, target, rfl, there, ends⟩ := one
  obtain ⟨_, _, _, same, here, others⟩ := other
  cases same
  cases there.symm.trans here
  exact ends.unique others

variable {links : Nat} {known : List (Location × Location)} {opened : List Location}
  {part : String} {rest : List Remainder}

theorem resolveFrom_idle (idle : part = "" ∨ part = ".") :
    host.resolveFrom links known opened location (.part part :: rest) =
      host.resolveFrom links known opened location rest := by
  rw [resolveFrom]
  simp [idle]

theorem resolveFrom_up :
    host.resolveFrom links known opened location (.part ".." :: rest) =
      host.resolveFrom links known opened (location.drop 1) rest := by
  rw [resolveFrom]
  simp

theorem resolveFrom_enter
    (step : IsStep part)
    (clean : '\x00' ∉ part.toList)
    (unlinked : host.linkAt? (part :: location) = none) :
    host.resolveFrom links known opened location (.part part :: rest) =
      host.resolveFrom links known opened (part :: location) rest := by
  have sound : ¬part.toList.contains '\x00' = true := by simpa using clean
  rw [resolveFrom]
  simp only [Bool.or_eq_true, decide_eq_true_iff, if_neg step.isTelling, if_neg step.isBelow,
    if_neg sound, unlinked]

theorem resolveFrom_link
    (step : IsStep part)
    (clean : '\x00' ∉ part.toList)
    {target : String}
    (there : host.linkAt? (part :: location) = some target) :
    host.resolveFrom links known opened location (.part part :: rest) =
      match known.lookup (part :: location) with
      | some place => host.resolveFrom links known opened place rest
      | none =>
        if opened.contains (part :: location) then
          .ok (rest.foldl Remainder.followPlainly (part :: location))
        else if host.room.links ≤ opened.length then .error .tooDeep
        else
          match links with
          | 0 => .ok (rest.foldl Remainder.followPlainly (part :: location))
          | links + 1 =>
            host.resolveFrom links known ((part :: location) :: opened)
              (linkStart target location)
              (Remainder.ofText target ++ .resolved (part :: location) :: rest) := by
  have sound : ¬part.toList.contains '\x00' = true := by simpa using clean
  rw [resolveFrom]
  simp only [Bool.or_eq_true, decide_eq_true_iff, if_neg step.isTelling, if_neg step.isBelow,
    if_neg sound, there]
  rfl

theorem resolveFrom_resolved {followed : Location} :
    host.resolveFrom links known opened location (.resolved followed :: rest) =
      host.resolveFrom links ((followed, location) :: known) (opened.erase followed) location
        rest := by
  rw [resolveFrom]

/-- Behind a link whose target begins with the link itself, no other link is followed. -/
theorem resolveFrom_of_circle
    (step : IsStep part)
    (clean : '\x00' ∉ part.toList)
    {target : String}
    (there : host.linkAt? (part :: location) = some target)
    (relative : isRooted target = false)
    {more : List String}
    (begins : partsOf target = part :: more)
    (links : Nat) :
    host.resolveFrom (links + 1) [] [] location [.part part] =
      .ok ((more.map Remainder.part).foldl Remainder.followPlainly (part :: location)) := by
  have start : linkStart target location = location := by rw [linkStart, relative]; rfl
  have spelled : Remainder.ofText target = .part part :: more.map .part := by
    rw [Remainder.ofText, begins, List.map_cons]
  have room : ¬host.room.links ≤ ([] : List Location).length := by
    have followed := host.room.followed
    rw [linkLimit] at followed
    rw [List.length_nil]
    omega
  rw [resolveFrom_link step clean there]
  simp only [List.lookup_nil, List.contains_nil, Bool.false_eq_true, if_false, if_neg room, start,
    spelled, List.cons_append]
  rw [resolveFrom_link step clean there]
  simp [Remainder.followPlainly]

/-- What is known of the links that have been followed, and of those that are being followed, is
right, and there are enough links left for all others. -/
structure IsReady
    (host : Host)
    (links : Nat)
    (known : List (Location × Location))
    (opened : List Location) : Prop where
  follows : ∀ entry ∈ known, ∃ count, host.Follows entry.1 count entry.2
  isLink : ∀ location ∈ opened, ∃ target, host.linkAt? location = some target
  distinct : (opened ++ known.map (·.1)).Nodup
  enough : host.root.size ≤ links + opened.length + known.length

namespace IsReady

theorem initial (host : Host) : host.IsReady host.root.size [] [] where
  follows := fun _ held => nomatch held
  isLink := fun _ held => nomatch held
  distinct := List.nodup_nil
  enough := le_rfl

theorem lookup_eq
    (ready : host.IsReady links known opened)
    {turn : Location}
    {count : Nat}
    (follows : host.Follows location count place)
    (found : known.lookup location = some turn) :
    turn = place := by
  obtain ⟨before, behind, rfl, -⟩ := List.lookup_eq_some_iff.mp found
  obtain ⟨other, right⟩ := ready.follows (location, turn) (by simp)
  exact (right.unique follows).2

theorem notMem_of_lookup
    (missing : known.lookup location = none) :
    location ∉ known.map (·.1) := by
  intro held
  obtain ⟨entry, inside, rfl⟩ := List.mem_map.mp held
  have other := List.lookup_eq_none_iff.mp missing entry inside
  simp at other

/-- A link that is new can be followed. -/
theorem opens
    (ready : host.IsReady links known opened)
    {target : String}
    (there : host.linkAt? location = some target)
    (missing : known.lookup location = none)
    (closed : location ∉ opened) :
    ∃ left, links = left + 1 ∧ host.IsReady left known (location :: opened) := by
  have distinct : (location :: (opened ++ known.map (·.1))).Nodup :=
    List.nodup_cons.mpr ⟨by simp [closed, notMem_of_lookup missing], ready.distinct⟩
  have each : ∀ other ∈ location :: (opened ++ known.map (·.1)),
      ∃ target, host.linkAt? other = some target := by
    rw [List.forall_mem_cons, List.forall_mem_append]
    refine ⟨⟨target, there⟩, ready.isLink, fun other held => ?_⟩
    obtain ⟨entry, inside, rfl⟩ := List.mem_map.mp held
    obtain ⟨count, part, above, target, -, here, -⟩ := ready.follows entry inside
    exact ⟨target, here⟩
  have few := length_le_size_of_links distinct each
  have enough := ready.enough
  simp only [List.length_cons, List.length_append, List.length_map] at few
  obtain ⟨left, rfl⟩ : ∃ left, links = left + 1 := ⟨links - 1, by omega⟩
  exact ⟨left, rfl, ready.follows, List.forall_mem_cons.mpr ⟨⟨target, there⟩, ready.isLink⟩,
    distinct, by rw [List.length_cons]; omega⟩

theorem closes
    (ready : host.IsReady links known (location :: opened))
    {count : Nat}
    (follows : host.Follows location count place) :
    host.IsReady links ((location, place) :: known) opened where
  follows := List.forall_mem_cons.mpr ⟨⟨count, follows⟩, ready.follows⟩
  isLink := (List.forall_mem_cons.mp ready.isLink).2
  distinct := List.perm_middle.nodup_iff.mpr ready.distinct
  enough := by
    have enough := ready.enough
    simp only [List.length_cons] at enough ⊢
    omega

end IsReady

/-- Parts that come to an end are resolved to it, unless there are more links on the way than there is
room for.  A link that is being followed is not met again on the way: with fewer links on the way, it
would come to its end as well. -/
theorem resolveFrom_append
    {count : Nat}
    {parts : List String}
    (ends : Ends host count location parts place)
    (ready : host.IsReady links known opened)
    (outer : ∀ other ∈ opened, ∃ more turn, host.Follows other more turn ∧ count ≤ more)
    (behind : List Remainder) :
    (∃ left learned, host.IsReady left learned opened ∧
      host.resolveFrom links known opened location (parts.map .part ++ behind) =
        host.resolveFrom left learned opened place behind) ∨
      host.room.links < opened.length + count ∧
        host.resolveFrom links known opened location (parts.map .part ++ behind) =
          .error .tooDeep := by
  -- The places that are opened lead on over as many links at least, which only gets smaller inside.
  induction ends generalizing links known opened behind with
  | stop => exact .inl ⟨links, known, ready, rfl⟩
  | idle idle _ ih =>
    rw [List.map_cons, List.cons_append, resolveFrom_idle idle]
    exact ih ready outer behind
  | up _ ih =>
    rw [List.map_cons, List.cons_append, resolveFrom_up]
    exact ih ready outer behind
  | enter step clean unlinked _ ih =>
    rw [List.map_cons, List.cons_append, resolveFrom_enter step clean unlinked]
    exact ih ready outer behind
  | @follow inner later location part target rest turn place step clean there inside _ within on =>
    have follows : host.Follows (part :: location) inner turn :=
      ⟨part, location, target, rfl, there, inside⟩
    have wider : ∀ other ∈ opened, ∃ more turn, host.Follows other more turn ∧ later ≤ more := by
      intro other held
      obtain ⟨more, turn, right, bound⟩ := outer other held
      exact ⟨more, turn, right, by omega⟩
    have grows : host.room.links < opened.length + later →
        host.room.links < opened.length + (inner + later + 1) := by omega
    rw [List.map_cons, List.cons_append, resolveFrom_link step clean there]
    split
    · next found =>
      rw [ready.lookup_eq follows found]
      exact (on ready wider behind).imp_right (And.imp_left grows)
    · next missing =>
      have closed : part :: location ∉ opened := by
        intro held
        obtain ⟨more, other, right, bound⟩ := outer _ held
        have same := (follows.unique right).1
        omega
      rw [if_neg (by simpa using closed)]
      split
      · next full => exact .inr ⟨by omega, rfl⟩
      · obtain ⟨left, rfl, deeper⟩ := ready.opens there missing closed
        have nested : ∀ other ∈ (part :: location) :: opened,
            ∃ more turn, host.Follows other more turn ∧ inner ≤ more := by
          refine List.forall_mem_cons.mpr ⟨⟨inner, turn, follows, le_rfl⟩, fun other held => ?_⟩
          obtain ⟨more, turn, right, bound⟩ := outer other held
          exact ⟨more, turn, right, by omega⟩
        simp only [Remainder.ofText]
        rcases within deeper nested (.resolved (part :: location) :: (rest.map .part ++ behind)) with
          ⟨less, learned, inward, reached⟩ | ⟨many, failed⟩
        · rw [reached, resolveFrom_resolved, List.erase_cons_head]
          exact (on (inward.closes follows) wider behind).imp_right (And.imp_left grows)
        · rw [List.length_cons] at many
          exact .inr ⟨by omega, failed⟩

/-! ## Names that come to an end -/

/-- Following every link on the way, a name comes to its end at a place. -/
def LeadsTo (host : Host) (name : PathName) (place : Location) : Prop :=
  ∃ count, Ends host count [] name.parts place

theorem IsReached.isTidy
    (reached : IsReached (fun part => '/' ∉ part.toList) place) :
    place.pathName.IsTidy := by
  intro part held
  obtain ⟨step, whole⟩ := reached part (List.mem_reverse.mp held)
  refine ⟨?_, whole⟩
  rw [PathName.isTelling, Bool.and_eq_true, bne_iff_ne, bne_iff_ne]
  exact not_or.mp step.isTelling

theorem isTidy_pathName (pure : IsPure place) : place.pathName.IsTidy :=
  IsReached.isTidy fun part held => ⟨(pure part held).1, (pure part held).2.2⟩

theorem notMem_text_pathName (pure : IsPure place) : '\x00' ∉ place.pathName.text.toList :=
  PathName.notMem_text rfl fun part held => (pure part (List.mem_reverse.mp held)).2.1

/-- No walk along a place without links comes upon one. -/
theorem walk_ne_tooManyLinks
    {followsLast : Bool}
    {parts : List String}
    (free : host.IsFree (parts.reverse ++ location))
    (reached : host.reaches location = true)
    (steps : ∀ part ∈ parts, IsStep part) :
    host.walk followsLast links location parts ≠ .error .tooManyLinks := by
  induction parts generalizing location with
  | nil => simp [walk]
  | cons part rest ih =>
    rw [List.reverse_cons, List.append_assoc, List.singleton_append] at free
    obtain ⟨step, steps⟩ := List.forall_mem_cons.mp steps
    have itself := free (part :: location) (List.suffix_append _ _)
    rw [walk]
    split
    · next entries above =>
      simp only [Bool.or_eq_true, decide_eq_true_iff, if_neg step.isTelling, if_neg step.isBelow]
      split
      · simp
      · next admitted =>
        split
        · simp
        · split
          · simp
          · next target known =>
            have there := (FileNode.at?_cons above part).trans known
            have higher := reaches_cons (step.searches_of_admits admitted) reached part
            cases itself.symm.trans (linkAt?_eq_some_iff.mpr ⟨there, higher⟩)
          · next admitted _ _ _ _ _ =>
            exact ih free (reaches_cons (step.searches_of_admits admitted) reached part) steps
    · simp

theorem find_ne_tooManyLinks
    (tree : host.root.IsTree)
    (free : host.IsFree place)
    (pure : IsPure place) :
    host.find place.pathName.text ≠ .error .tooManyLinks := by
  have walked : host.walk true linkLimit [] place.pathName.parts ≠ .error .tooManyLinks := by
    refine walk_ne_tooManyLinks ?_ rfl fun part held => (pure part (List.mem_reverse.mp held)).1
    rw [Location.pathName, List.reverse_reverse, List.append_nil]
    exact free
  rw [← walk_partsOf_text tree rfl (isTidy_pathName pure)] at walked
  exact find_ne_error (notMem_text_pathName pure) (by simp) (by simp) walked

variable {name : PathName}

theorem isFree_nil (tree : host.root.IsTree) : host.IsFree [] := by
  intro above higher
  rw [List.suffix_nil.mp higher]
  obtain ⟨entries, top⟩ := tree.exists_entries
  exact linkAt?_of_at? top (by simp)

theorem LeadsTo.isFree (tree : host.root.IsTree) (leads : host.LeadsTo name place) :
    host.IsFree place := by
  obtain ⟨count, ends⟩ := leads
  exact ends.isFree (isFree_nil tree)

theorem LeadsTo.isPure (tidy : name.IsTidy) (leads : host.LeadsTo name place) : IsPure place := by
  obtain ⟨count, ends⟩ := leads
  exact ends.isPure (fun part held => (tidy part held).isWhole) fun _ held => nomatch held

/-- The name of a place without links comes to its end there. -/
theorem ends_pathName (free : host.IsFree place) (pure : IsPure place) :
    Ends host 0 [] place.pathName.parts place := by
  have whole : place.reverse.reverse ++ [] = place := by simp
  have ends := @Ends.of_isFree host [] place.reverse
  rw [whole] at ends
  exact ends free pure

theorem leadsTo_pathName (free : host.IsFree place) (pure : IsPure place) :
    host.LeadsTo place.pathName place :=
  ⟨0, ends_pathName free pure⟩

/-- No link is on the way to something that is no link itself. -/
theorem isFree_of_at?
    {node : FileNode}
    (there : host.root.at? place = some node)
    (unlinked : ∀ target, node ≠ .link target) :
    host.IsFree place := by
  intro above higher
  obtain ⟨below, rfl⟩ := higher
  cases below with
  | nil => exact linkAt?_of_at? there unlinked
  | cons part below =>
    obtain ⟨entries, parent, -⟩ := FileNode.exists_entries_of_at?_cons there
    obtain ⟨others, same⟩ :=
      FileNode.exists_entries_of_suffix parent (List.suffix_append below above)
    exact linkAt?_of_at? same (by simp)

theorem isPure_of_at?
    (tree : host.root.IsTree)
    {node : FileNode}
    (there : host.root.at? place = some node) :
    IsPure place := by
  intro part held
  have plain := FileNode.isPlain_of_mem tree.isProper there held
  exact ⟨.of_isPlain plain, plain.isClean, plain.isWhole⟩

theorem leadsTo_of_at?
    (tree : host.root.IsTree)
    {node : FileNode}
    (there : host.root.at? place = some node)
    (unlinked : ∀ target, node ≠ .link target) :
    host.LeadsTo place.pathName place :=
  leadsTo_pathName (isFree_of_at? there unlinked) (isPure_of_at? tree there)

/-- A name that comes to an end is resolved to the name of that place, unless there are more links on
the way than there is room for. -/
theorem Ends.resolve_cases
    {count : Nat}
    (ends : Ends host count [] name.parts place)
    (tree : host.root.IsTree)
    (absolute : name.isAbsolute = true)
    (tidy : name.IsTidy) :
    host.resolve name = .ok place.pathName ∨
      host.room.links < count ∧ host.resolve name = .error .tooDeep := by
  have leads : host.LeadsTo name place := ⟨count, ends⟩
  obtain ⟨idle, -, empty, known⟩ := PathName.partsOf_text absolute tidy
  have whole : Ends host count [] (partsOf name.text) place := by
    rw [known]
    clear known
    induction idle with
    | nil => exact ends
    | cons part rest ih =>
      obtain ⟨first, others⟩ := List.forall_mem_cons.mp empty
      exact .idle (.inl first) (ih others)
  have outcome := resolveFrom_append whole (.initial host) (fun _ held => nomatch held) []
  rw [List.append_nil, ← Remainder.ofText, List.length_nil, Nat.zero_add] at outcome
  rcases outcome with ⟨left, learned, -, reached⟩ | ⟨many, failed⟩
  · rw [resolveFrom] at reached
    have free := leads.isFree tree
    have pure := leads.isPure tidy
    have looped := find_ne_tooManyLinks tree free pure
    have unclean := host.find_ne_nulCharacter (notMem_text_pathName pure)
    -- neither of the faults that make resolving fail is met at a place without links
    exact .inl (by simp only [resolve, reached])
  · exact .inr ⟨many, by simp only [resolve, failed]⟩

/-- A place without links is resolved already. -/
theorem resolve_pathName
    (tree : host.root.IsTree)
    (free : host.IsFree place)
    (pure : IsPure place) :
    host.resolve place.pathName = .ok place.pathName :=
  ((ends_pathName free pure).resolve_cases tree rfl (isTidy_pathName pure)).resolve_right
    fun many => absurd many.1 (Nat.not_lt_zero _)

section Located

variable
  (tree : host.root.IsTree)
  (absolute : name.isAbsolute = true)
  (tidy : name.IsTidy)
  (located : host.locate true name.text = .ok place)

include tree absolute tidy located

theorem exists_ends_of_locate : ∃ count ≤ linkLimit, Ends host count [] name.parts place := by
  obtain ⟨-, -, walked⟩ := locate_eq_ok_iff.mp located
  rw [walk_partsOf_text tree absolute tidy] at walked
  exact Ends.of_walk tree.isProper walked rfl

/-- A name that leads somewhere comes to its end there. -/
theorem leadsTo_of_locate : host.LeadsTo name place := by
  obtain ⟨count, -, ends⟩ := exists_ends_of_locate tree absolute tidy located
  exact ⟨count, ends⟩

/-- A name that leads somewhere is resolved to the name of that place. -/
theorem resolve_of_locate : host.resolve name = .ok place.pathName := by
  obtain ⟨count, few, ends⟩ := exists_ends_of_locate tree absolute tidy located
  exact (ends.resolve_cases tree absolute tidy).resolve_right fun many =>
    absurd many.1 (Nat.not_lt.mpr (few.trans host.room.followed))

end Located

/-! ## All resolved names -/

/-- What is left to resolve has only parts with a property. -/
def Satisfy (property : String → Prop) (left : List Remainder) : Prop :=
  ∀ part, Remainder.part part ∈ left → property part

section Reached

variable {property : String → Prop} {left : List Remainder} {item : Remainder}

theorem Satisfy.of_cons (each : Satisfy property (item :: left)) : Satisfy property left :=
  fun part held => each part (List.mem_cons_of_mem _ held)

theorem Satisfy.ofText
    {target : String}
    (each : ∀ part ∈ partsOf target, property part) :
    Satisfy property (Remainder.ofText target) := by
  intro part held
  obtain ⟨_, inside, same⟩ := List.mem_map.mp held
  cases same
  exact each part inside

theorem IsReached.drop (reached : IsReached property location) (count : Nat) :
    IsReached property (location.drop count) :=
  fun part held => reached part (List.mem_of_mem_drop held)

theorem IsReached.cons
    (reached : IsReached property location)
    (step : IsStep part)
    (has : property part) :
    IsReached property (part :: location) :=
  List.forall_mem_cons.mpr ⟨⟨step, has⟩, reached⟩

theorem IsReached.followPlainly
    (reached : IsReached property location)
    (each : Satisfy property left) :
    IsReached property (left.foldl Remainder.followPlainly location) := by
  induction left generalizing location with
  | nil => exact reached
  | cons item rest ih =>
    refine ih ?_ each.of_cons
    cases item with
    | resolved => exact reached
    | part name =>
      rw [Remainder.followPlainly]
      split
      · exact reached
      · next telling =>
        split
        · exact reached.drop 1
        · next below =>
          exact reached.cons ⟨by simpa using telling, below⟩ (each name List.mem_cons_self)

/-- There are more links than can be nested in one another. -/
def IsCrowded (host : Host) : Prop :=
  ∃ links : List Location, links.Nodup ∧ host.room.links < links.length ∧
    ∀ location ∈ links, ∃ target, host.linkAt? location = some target

/-- What is left is resolved to a place that only parts of it or of targets lead to, unless one of
these has a null character or there are too many links. -/
theorem resolveFrom_cases
    (targets : ∀ source target, host.linkAt? source = some target →
      ∀ part ∈ partsOf target, property part)
    (each : Satisfy property left)
    (learned : ∀ entry ∈ known, IsReached property entry.2)
    (distinct : opened.Nodup)
    (isLink : ∀ source ∈ opened, ∃ target, host.linkAt? source = some target)
    (reached : IsReached property location) :
    match host.resolveFrom links known opened location left with
    | .ok place => IsReached property place
    | .error failure =>
      failure = .tooDeep ∧ host.IsCrowded ∨ ∃ part, property part ∧ '\x00' ∈ part.toList := by
  fun_induction Host.resolveFrom host links known opened location left with
  | case1 => exact reached
  | case2 links known opened location followed rest ih =>
    exact ih each.of_cons (List.forall_mem_cons.mpr ⟨reached, learned⟩) (distinct.erase followed)
      (fun source held => isLink source (List.mem_of_mem_erase held)) reached
  | case3 links known opened location name rest idle ih =>
    exact ih each.of_cons learned distinct isLink reached
  | case4 links known opened location rest _ ih =>
    exact ih each.of_cons learned distinct isLink (reached.drop 1)
  | case5 links known opened location name rest _ _ unclean =>
    exact .inr ⟨name, each name List.mem_cons_self, by simpa using unclean⟩
  | case6 links known opened location name rest _ _ _ target there place found ih =>
    obtain ⟨before, behind, rfl, -⟩ := List.lookup_eq_some_iff.mp found
    exact ih each.of_cons learned distinct isLink (learned (name :: location, place) (by simp))
  | case7 links known opened location name rest telling below =>
    exact (reached.cons ⟨by simpa using telling, below⟩
      (each name List.mem_cons_self)).followPlainly each.of_cons
  | case8 links known opened location name rest _ _ _ target there _ closed full =>
    refine .inl ⟨rfl, (name :: location) :: opened, ?_, by rw [List.length_cons]; omega, ?_⟩
    · exact List.nodup_cons.mpr ⟨by simpa using closed, distinct⟩
    · exact List.forall_mem_cons.mpr ⟨⟨target, there⟩, isLink⟩
  | case9 known opened location name rest telling below =>
    exact (reached.cons ⟨by simpa using telling, below⟩
      (each name List.mem_cons_self)).followPlainly each.of_cons
  | case10 known opened location name rest _ _ _ target there _ closed _ links ih =>
    refine ih ?_ learned (List.nodup_cons.mpr ⟨by simpa using closed, distinct⟩)
      (List.forall_mem_cons.mpr ⟨⟨target, there⟩, isLink⟩) ?_
    · intro part held
      rcases List.mem_append.mp held with held | held
      · exact Satisfy.ofText (targets _ target there) part held
      · exact each part (List.mem_cons_of_mem _ (by simpa using held))
    · exact fun part held => reached part ((linkStart_suffix target location).subset held)
  | case11 links known opened location name rest telling below _ _ ih =>
    exact ih each.of_cons learned distinct isLink
      (reached.cons ⟨by simpa using telling, below⟩ (each name List.mem_cons_self))

end Reached

/-- A resolved name has no null character. -/
theorem clean_of_resolve
    {result : PathName}
    (resolved : host.resolve name = .ok result) :
    '\x00' ∉ result.text.toList := by
  intro unclean
  have found : host.find result.text = .error .nulCharacter := by
    rw [find, locate, if_pos (by simpa using unclean)]
  unfold resolve at resolved
  simp only at resolved
  split at resolved
  · contradiction
  · split at resolved
    · contradiction
    · contradiction
    · next other _ other_ne =>
      cases resolved
      exact other_ne found

/-- A resolved name is the name of a place. -/
theorem exists_isPure_of_resolve
    {result : PathName}
    (resolved : host.resolve name = .ok result) :
    ∃ place, IsPure place ∧ result = place.pathName := by
  have clean := clean_of_resolve resolved
  have cases := @resolveFrom_cases host [] host.root.size [] [] (fun part => '/' ∉ part.toList)
    (Remainder.ofText name.text) (fun _ _ _ part held => (notMem_of_mem_partsOf held).1)
    (.ofText fun part held => (notMem_of_mem_partsOf held).1) (fun _ held => nomatch held)
    .nil (fun _ held => nomatch held) (fun _ held => nomatch held)
  unfold resolve at resolved
  simp only at resolved
  split at resolved
  · contradiction
  · next place reached =>
    rw [reached] at cases
    have same : result = place.pathName := by
      split at resolved
      · contradiction
      · contradiction
      · exact (Except.ok.inj resolved).symm
    subst same
    obtain ⟨idle, -, -, known⟩ := PathName.partsOf_text rfl cases.isTidy
    refine ⟨place, fun part held => ⟨(cases part held).1, fun inside => clean ?_,
      (cases part held).2⟩, rfl⟩
    have written : part ∈ partsOf place.pathName.text := by
      rw [known]
      exact List.mem_append_right _ (List.mem_reverse.mpr held)
    exact (notMem_of_mem_partsOf written).2 inside

theorem isPure_of_resolve (resolved : host.resolve name = .ok place.pathName) : IsPure place := by
  obtain ⟨other, pure, same⟩ := exists_isPure_of_resolve resolved
  rw [Location.pathName, Location.pathName, PathName.mk.injEq, List.reverse_inj] at same
  rwa [same.2]

/-- A name without null characters is resolved to the name of a place, unless it leads into a circle
of links or there are too many links. -/
theorem resolve_cases
    (tree : host.root.IsTree)
    (absolute : name.isAbsolute = true)
    (tidy : name.IsTidy)
    (clean : '\x00' ∉ name.text.toList) :
    (∃ place, IsPure place ∧ host.resolve name = .ok place.pathName) ∨
      (∀ place, ¬host.LeadsTo name place) ∧
        (∃ loop, host.resolve name =
          .error (.of "RuntimeError" [s!"Symlink loop from {Text.quoted loop}"])) ∨
      host.IsCrowded ∧ host.resolve name = .error .tooDeep := by
  have targets : ∀ source target, host.linkAt? source = some target →
      ∀ part ∈ partsOf target, '\x00' ∉ part.toList ∧ '/' ∉ part.toList := by
    intro source target known part held
    obtain ⟨whole, below⟩ := notMem_of_mem_partsOf held
    have proper := FileNode.isProper_of_at? tree.isProper (linkAt?_eq_some_iff.mp known).1
    rw [FileNode.isProper_link_iff] at proper
    exact ⟨fun inside => proper (below inside), whole⟩
  have each : Satisfy (fun part => '\x00' ∉ part.toList ∧ '/' ∉ part.toList)
      (Remainder.ofText name.text) := by
    refine .ofText fun part held => ?_
    obtain ⟨whole, below⟩ := notMem_of_mem_partsOf held
    exact ⟨fun inside => clean (below inside), whole⟩
  have cases := @resolveFrom_cases host [] host.root.size [] [] _ _ targets each
    (List.forall_mem_nil _) .nil (List.forall_mem_nil _) (List.forall_mem_nil _)
  split at cases
  · next place reached =>
    by_cases looped : host.find place.pathName.text = .error .tooManyLinks
    · have failed : host.resolve name =
          .error (.of "RuntimeError" [s!"Symlink loop from {Text.quoted place.pathName.text}"]) := by
        simp only [resolve, reached, looped]
      refine .inr (.inl ⟨?_, _, failed⟩)
      rintro other ⟨count, ends⟩
      rcases ends.resolve_cases tree absolute tidy with same | ⟨-, same⟩
      · rw [same] at failed
        contradiction
      · rw [same] at failed
        simp [Failure.tooDeep, Failure.of] at failed
    · have unclean := host.find_ne_nulCharacter (notMem_text_pathName cases)
      exact .inl ⟨place, cases, by simp only [resolve, reached]⟩
  · next failure reached =>
    rcases cases with ⟨rfl, crowded⟩ | ⟨part, ⟨sound, -⟩, unclean⟩
    · exact .inr (.inr ⟨crowded, by simp only [resolve, reached]⟩)
    · exact absurd unclean sound

end Host
end Files
end MarkupLint
