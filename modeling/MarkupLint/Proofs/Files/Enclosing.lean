import MarkupLint.Proofs.Files.Expanding

/-!
# Walks inside a directory

A directory is enclosed if no link leads out of it.  Names that do not step above the directory lead to
the same places inside of it, wherever the directory stands.
-/

namespace MarkupLint
namespace Files
namespace Host

variable {host content : Host} {location place turn : Location} {part : String}
  {parts rest : List String} {count : Nat}

/-- Parts come to an end if their pieces do so one after the other. -/
theorem Ends.append
    {first second : Nat}
    (early : Ends host first location parts turn)
    (late : Ends host second turn rest place) :
    Ends host (first + second) location (parts ++ rest) place := by
  induction early with
  | stop => rwa [Nat.zero_add]
  | idle idle _ ih => exact .idle idle (ih late)
  | up _ ih => exact .up (ih late)
  | enter step clean unlinked _ ih => exact .enter step clean unlinked (ih late)
  | @follow inner outer _ _ _ _ _ _ step clean there inside _ _ ih =>
    have following := Ends.follow step clean there inside (ih late)
    rwa [show inner + outer + 1 + second = inner + (outer + second) + 1 by omega]

/-! ## Staying inside -/

/-- When parts are followed from a location, no step up is taken at the top. -/
def Stays (content : Host) (location : Location) (parts : List String) : Prop :=
  ∀ front behind, parts = front ++ ".." :: behind →
    ∀ count turn, Ends content count location front turn → turn ≠ []

/-- No link leads out of a directory. -/
def IsEnclosed (content : Host) : Prop :=
  ∀ part location target, content.linkAt? (part :: location) = some target →
    isRooted target = false ∧ content.Stays location (partsOf target)

namespace Stays

theorem append_of_notMem
    (stays : content.Stays location parts)
    (below : ".." ∉ rest) :
    content.Stays location (parts ++ rest) := by
  intro front behind spelled count turn ends
  rcases List.append_eq_append_iff.mp spelled with ⟨more, rfl, others⟩ | ⟨more, rfl, others⟩
  · exact absurd (others ▸ List.mem_append_right more List.mem_cons_self) below
  · cases more with
    | nil =>
      rw [List.nil_append] at others
      exact absurd (others ▸ List.mem_cons_self) below
    | cons first more =>
      obtain ⟨rfl, -⟩ := List.cons_eq_cons.mp others
      exact stays front more rfl count turn ends

theorem ne_nil (stays : content.Stays location (".." :: rest)) : location ≠ [] :=
  stays [] rest rfl 0 location (.stop location)

theorem of_ends
    (stays : content.Stays location (parts ++ rest))
    (ends : Ends content count location parts turn) :
    content.Stays turn rest := by
  rintro front behind rfl more place others
  exact stays (parts ++ front) behind (List.append_assoc _ _ _).symm _ _ (ends.append others)

theorem of_idle
    (stays : content.Stays location (part :: rest))
    (idle : part = "" ∨ part = ".") :
    content.Stays location rest :=
  @of_ends content location location [part] rest 0 stays (.idle idle (.stop location))

theorem of_up (stays : content.Stays location (".." :: rest)) :
    content.Stays (location.drop 1) rest :=
  @of_ends content location _ [".."] rest 0 stays (.up (.stop _))

theorem of_enter
    (stays : content.Stays location (part :: rest))
    (step : IsStep part)
    (clean : '\x00' ∉ part.toList)
    (unlinked : content.linkAt? (part :: location) = none) :
    content.Stays (part :: location) rest :=
  @of_ends content location _ [part] rest 0 stays (.enter step clean unlinked (.stop _))

theorem of_follow
    (stays : content.Stays location (part :: rest))
    (step : IsStep part)
    (clean : '\x00' ∉ part.toList)
    {target : String}
    (there : content.linkAt? (part :: location) = some target)
    (inside : isRooted target = false ∧ content.Stays location (partsOf target)) :
    content.Stays location (partsOf target ++ rest) := by
  have start : linkStart target location = location := by rw [linkStart, inside.1]; rfl
  have behindTarget : ∀ more behind, rest = more ++ ".." :: behind → ∀ count turn,
      Ends content count location (partsOf target ++ more) turn → turn ≠ [] := by
    intro more behind spelled count turn ends
    obtain ⟨inner, outer, between, -, early, late⟩ := ends.of_append
    rw [← start] at early
    exact stays (part :: more) behind (congrArg (part :: ·) spelled) _ _
      (.follow step clean there early late)
  intro front behind spelled count turn ends
  rcases List.append_eq_append_iff.mp spelled with ⟨more, rfl, others⟩ | ⟨more, whole, others⟩
  · exact behindTarget more behind others count turn ends
  · cases more with
    | nil =>
      rw [List.append_nil] at whole
      exact behindTarget [] behind others.symm count turn (by rwa [List.append_nil, whole])
    | cons first more =>
      obtain ⟨rfl, -⟩ := List.cons_eq_cons.mp others
      exact inside.2 front more whole count turn ends

end Stays

/-! ## The same content elsewhere -/

/-- The directory at a place is met as another one is by itself. -/
structure Holds (host : Host) (place : Location) (content : Host) : Prop where
  there : host.root.at? place = some content.root
  reached : host.reaches place = true
  lists_eq : ∀ location, host.lists (location ++ place) = content.lists location
  searches_eq : ∀ location, host.searches (location ++ place) = content.searches location
  room_eq : host.room = content.room

namespace Holds

variable (holds : host.Holds place content)

include holds

theorem at?_append (location : Location) :
    host.root.at? (location ++ place) = content.root.at? location := by
  rw [FileNode.at?_append, holds.there]
  rfl

theorem admits_append (location : Location) (part : String) :
    host.admits (location ++ place) part = content.admits location part := by
  rw [admits, admits, holds.searches_eq]

theorem reaches_append (location : Location) :
    host.reaches (location ++ place) = content.reaches location := by
  induction location with
  | nil => exact holds.reached
  | cons part above ih => rw [List.cons_append, reaches, reaches, holds.searches_eq, ih]

theorem linkAt?_append (location : Location) :
    host.linkAt? (location ++ place) = content.linkAt? location := by
  rw [linkAt?, linkAt?, holds.at?_append, holds.reaches_append]

end Holds

variable {followsLast : Bool} {links : Nat}

/-- A walk that does not leave a directory is the same wherever the directory stands. -/
theorem walk_append_place
    (proper : content.root.isProper = true)
    (enclosed : content.IsEnclosed)
    (holds : host.Holds place content)
    (reached : content.reaches location = true)
    (stays : content.Stays location parts) :
    host.walk followsLast links (location ++ place) parts =
      (content.walk followsLast links location parts).map (· ++ place) := by
  fun_induction Host.walk content followsLast links location parts with
  | case1 => rw [walk]; rfl
  | case3 links location part parts entries above admitted idle ih =>
    have here := (holds.at?_append location).trans above
    have idle : part = "" ∨ part = "." := by simpa using idle
    rw [walk_idle here (by simpa [holds.admits_append] using admitted) idle]
    exact ih reached (stays.of_idle idle)
  | case4 links location parts entries above admitted _ ih =>
    have here := (holds.at?_append location).trans above
    have admitted : host.admits (location ++ place) ".." = true := by
      simpa [holds.admits_append] using admitted
    obtain ⟨first, others, rfl⟩ := List.exists_cons_of_ne_nil stays.ne_nil
    rw [walk_up here admitted]
    exact ih (reaches_of_suffix reached (List.drop_suffix 1 _)) stays.of_up
  | case9 location part parts entries above admitted telling below short target known goes links ih =>
    have entry := (FileNode.at?_cons above part).trans known
    have step : IsStep part := ⟨by simpa using telling, below⟩
    have searched := step.searches_of_admits admitted
    have link := linkAt?_eq_some_iff.mpr ⟨entry, reaches_cons searched reached part⟩
    have inside := enclosed part location target link
    have here : host.root.at? (part :: (location ++ place)) = some (.link target) := by
      rw [← List.cons_append, holds.at?_append, entry]
    have moved : linkStart target (location ++ place) = location ++ place := by
      rw [linkStart, inside.1]; rfl
    have on : followsLast = true ∨ parts ≠ [] := by
      rw [Bool.and_eq_true, List.isEmpty_iff, Bool.not_eq_true', not_and_or, Bool.not_eq_false] at goes
      exact goes.symm
    rw [walk_follow step (by rwa [holds.searches_eq]) (Nat.not_lt.mp short) here on, moved]
    simp only [inside.1, Bool.false_eq_true, if_false] at ih ⊢
    exact ih reached
      (stays.of_follow step (FileNode.isPlain_of_at?_cons proper entry).isClean link inside)
  | case10 links location part parts entries above admitted telling below short node unlinked known ih =>
    have entry := (FileNode.at?_cons above part).trans known
    have step : IsStep part := ⟨by simpa using telling, below⟩
    have searched := step.searches_of_admits admitted
    have here : host.root.at? (part :: (location ++ place)) = some node := by
      rw [← List.cons_append, holds.at?_append, entry]
    rw [walk_enter step (by rwa [holds.searches_eq]) (Nat.not_lt.mp short) here unlinked]
    exact ih (reaches_cons searched reached part) (stays.of_enter step
      (FileNode.isPlain_of_at?_cons proper entry).isClean (linkAt?_of_at? entry unlinked))
  | _ =>
    -- the walk comes to its end here, and looks at the same entries before it does
    rw [walk, holds.at?_append, holds.admits_append]
    grind [Except.map]

/-- Following links inside a directory comes to the same end wherever the directory stands. -/
theorem Ends.append_place
    (enclosed : content.IsEnclosed)
    (holds : host.Holds place content)
    (ends : Ends content count location parts turn)
    (stays : content.Stays location parts) :
    Ends host count (location ++ place) parts (turn ++ place) := by
  induction ends with
  | stop => exact .stop _
  | idle idle _ ih => exact .idle idle (ih (stays.of_idle idle))
  | @up _ location _ _ _ ih =>
    obtain ⟨first, others, rfl⟩ := List.exists_cons_of_ne_nil stays.ne_nil
    exact .up (ih stays.of_up)
  | @enter _ location part _ _ step clean unlinked _ ih =>
    refine .enter step clean ?_ (ih (stays.of_enter step clean unlinked))
    rw [← List.cons_append, holds.linkAt?_append, unlinked]
  | @follow _ _ location part target _ _ _ step clean known inner _ within behind =>
    have inside := enclosed part location target known
    have start : linkStart target location = location := by rw [linkStart, inside.1]; rfl
    have moved : linkStart target (location ++ place) = location ++ place := by
      rw [linkStart, inside.1]; rfl
    have here : host.linkAt? (part :: (location ++ place)) = some target := by
      rw [← List.cons_append, holds.linkAt?_append, known]
    rw [start] at inner within
    refine .follow step clean here ?_ (behind ?_)
    · rw [moved]
      exact within inside.2
    · exact @Stays.of_ends content location _ [part] _ _ stays
        (.follow step clean known (start.symm ▸ inner) (.stop _))

/-! ## Walks down -/

/-- A walk along names of directories goes down to them. -/
theorem walk_reverse_append
    (proper : host.root.isProper = true)
    {below : Location}
    {entries : List (String × FileNode)}
    (there : host.root.at? (below ++ location) = some (.directory entries))
    (reached : host.reaches (below ++ location) = true) :
    host.walk followsLast links location (below.reverse ++ rest) =
      host.walk followsLast links (below ++ location) rest := by
  induction below generalizing entries rest with
  | nil => rfl
  | cons part above ih =>
    rw [List.cons_append] at there reached ⊢
    rw [reaches, Bool.and_eq_true] at reached
    obtain ⟨others, parent, -⟩ := FileNode.exists_entries_of_at?_cons there
    have plain := FileNode.isPlain_of_at?_cons proper there
    rw [List.reverse_cons, List.append_assoc, List.singleton_append, ih parent reached.2,
      walk_enter (.of_isPlain plain) reached.1 plain.isShort there (by simp)]

/-- A walk down to a directory that may not be searched, or through one, is refused behind it. -/
theorem walk_of_unreached
    (proper : host.root.isProper = true)
    (step : IsStep part)
    {below : Location}
    {entries : List (String × FileNode)}
    (there : host.root.at? (below ++ location) = some (.directory entries))
    (stuck : host.reaches (part :: (below ++ location)) = false)
    (reached : host.reaches location = true) :
    host.walk followsLast links location (below.reverse ++ part :: rest) = .error .notPermitted := by
  have refused : ∀ {turn : Location} {others : List (String × FileNode)} {part : String},
      IsStep part → host.root.at? turn = some (.directory others) → host.searches turn = false →
        ∀ rest, host.walk followsLast links turn (part :: rest) = .error .notPermitted := by
    intro turn others part step above unsearched rest
    rw [walk, above]
    simp [step.admits_eq, unsearched]
  induction below generalizing part entries rest with
  | nil =>
    rw [List.nil_append] at there stuck
    exact refused step there (by simpa [reaches, reached] using stuck) rest
  | cons first above ih =>
    by_cases passable : host.reaches (first :: above ++ location) = true
    · rw [reaches, passable, Bool.and_true] at stuck
      rw [walk_reverse_append proper there passable]
      exact refused step there stuck rest
    · obtain ⟨others, parent, -⟩ := FileNode.exists_entries_of_at?_cons there
      rw [List.reverse_cons, List.append_assoc, List.singleton_append]
      exact ih (.of_isPlain (FileNode.isPlain_of_at?_cons proper there)) parent
        (Bool.not_eq_true _ ▸ passable)

theorem walk_singleton_unfollowed
    {node : FileNode}
    (step : IsStep part)
    (searched : host.searches location = true)
    (short : part.utf8ByteSize ≤ partLimit)
    (there : host.root.at? (part :: location) = some node) :
    host.walk false links location [part] = .ok (part :: location) := by
  obtain ⟨entries, above, known⟩ := FileNode.exists_entries_of_at?_cons there
  rw [walk, above]
  simp only [step.admits_eq, searched, Bool.not_true, Bool.false_eq_true, if_false, Bool.or_eq_true,
    decide_eq_true_iff, if_neg step.isTelling, if_neg step.isBelow, if_neg (Nat.not_lt.mpr short),
    known]
  cases node <;> simp [walk]

/-- What a process is led to, it would be led to if everything were permitted. -/
theorem walk_permitted
    (walked : host.walk followsLast links location parts = .ok turn) :
    host.root.host.walk followsLast links location parts = .ok turn := by
  have admits : ∀ location part, host.root.host.admits location part = true := by
    intro location part
    simp [Host.admits, FileNode.host]
  fun_induction Host.walk host followsLast links location parts with
  | case1 => rwa [walk]
  | case3 links location part parts entries above admitted idle ih =>
    rw [@walk_idle host.root.host _ _ _ _ _ entries above (admits _ _) (by simpa using idle)]
    exact ih walked
  | case4 links location parts entries above admitted _ ih =>
    rw [@walk_up host.root.host _ _ _ _ entries above (admits _ _)]
    exact ih walked
  | case7 links location part parts entries above admitted telling below short target known last =>
    cases walked
    rw [walk]
    have above : host.root.host.root.at? location = some (.directory entries) := above
    simp_all
  | case9 location part parts entries above admitted telling below short target known goes links ih =>
    have entry := (FileNode.at?_cons above part).trans known
    have step : IsStep part := ⟨by simpa using telling, below⟩
    have on : followsLast = true ∨ parts ≠ [] := by
      rw [Bool.and_eq_true, List.isEmpty_iff, Bool.not_eq_true', not_and_or, Bool.not_eq_false] at goes
      exact goes.symm
    rw [@walk_follow host.root.host _ _ _ _ _ step rfl (Nat.not_lt.mp short) target entry on]
    exact ih walked
  | case10 links location part parts entries above admitted telling below short node unlinked known ih =>
    have entry := (FileNode.at?_cons above part).trans known
    have step : IsStep part := ⟨by simpa using telling, below⟩
    rw [@walk_enter host.root.host _ _ _ _ _ step rfl (Nat.not_lt.mp short) node entry unlinked]
    exact ih walked
  | _ => contradiction

end Host
end Files
end MarkupLint
