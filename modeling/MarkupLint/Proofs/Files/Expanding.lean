import MarkupLint.Files.Scan
import MarkupLint.Proofs.Files.Resolving
import MarkupLint.Proofs.Insertion
import MarkupLint.Proofs.Traversal

/-!
# What inputs stand for

The names that an input stands for are absolute.  They lead to regular files, unless the input is a
plain name that leads to no directory, which stands for itself.  Only a null character, a name that
may not be looked up, and too little room keep an input from standing for names.
-/

namespace MarkupLint
namespace Files

theorem PathName.isAbsolute_ofText_iff (text : String) :
    (ofText text).isAbsolute = true ↔ text.toList.head? = some '/' := by
  rw [isAbsolute, ofText]
  cases text.toList with
  | nil => simp [rootOf]
  | cons char rest =>
    by_cases slash : char = '/'
    · subst slash
      simp only [rootOf, List.takeWhile_cons, beq_self_eq_true, if_true, List.length_cons]
      split <;> simp_all
    · simp [rootOf, slash]

theorem PathName.head?_text {name : PathName} (absolute : name.isAbsolute = true) :
    name.text.toList.head? = some '/' := by
  obtain ⟨root, parts⟩ := name
  rw [text_of_isAbsolute absolute, String.toList_append, List.head?_append]
  cases root with
  | relative => contradiction
  | slash => simp [rootText]
  | doubleSlash => simp [rootText]

theorem PathName.notMem_of_mem_ofText
    {text part : String}
    (clean : '\x00' ∉ text.toList)
    (held : part ∈ (ofText text).parts) :
    '\x00' ∉ part.toList := by
  have inside := List.mem_of_mem_filter held
  exact fun unclean => clean ((notMem_of_mem_partsOf inside).2 unclean)

theorem PathName.notMem_of_mem_parts
    {name : PathName}
    (absolute : name.isAbsolute = true)
    (tidy : name.IsTidy)
    (clean : '\x00' ∉ name.text.toList)
    {part : String}
    (held : part ∈ name.parts) :
    '\x00' ∉ part.toList := by
  obtain ⟨idle, -, -, known⟩ := partsOf_text absolute tidy
  have written : part ∈ partsOf name.text := known ▸ List.mem_append_right _ held
  exact fun unclean => clean ((notMem_of_mem_partsOf written).2 unclean)

theorem FileNode.exists_value_of_mem_keys
    {entries : List (String × FileNode)}
    (proper : (directory entries).isProper = true)
    {name : String}
    (held : name ∈ Table.keys entries) :
    ∃ node, Table.value? entries name = some node := by
  obtain ⟨⟨_, node⟩, inside, rfl⟩ := List.mem_map.mp held
  have distinct : (Table.keys entries).Nodup := by
    rw [isProper, Bool.and_eq_true, decide_eq_true_iff] at proper
    exact proper.1
  exact ⟨node, (Table.value?_eq_some_iff distinct).mpr inside⟩

theorem FileNode.isPlain_of_mem_keys
    {entries : List (String × FileNode)}
    (proper : (directory entries).isProper = true)
    {name : String}
    (held : name ∈ Table.keys entries) :
    IsPlain name := by
  obtain ⟨node, known⟩ := exists_value_of_mem_keys proper held
  exact (of_value?_of_isProper proper known).1

namespace Glob

variable {host : Host} {onlyDirectories : Bool} {room : Nat} {directory part name : String}

/-! ## Names inside a directory -/

theorem listing_subset :
    listing host onlyDirectories directory ⊆ listing host false directory := by
  unfold listing
  split
  · next entries _ =>
    cases onlyDirectories with
    | false => exact List.Subset.refl _
    | true => exact List.map_subset _ (List.filter_subset_self entries)
  · exact List.Subset.refl _

theorem isPlain_of_mem_listing
    (tree : host.root.IsTree)
    (held : name ∈ listing host onlyDirectories directory) :
    IsPlain name := by
  have listed := listing_subset held
  unfold listing at listed
  split at listed
  · next entries known =>
    obtain ⟨place, -, there, -⟩ := Host.entriesAt_eq_ok_iff.mp known
    exact FileNode.isPlain_of_mem_keys (FileNode.isProper_of_at? tree.isProper there) listed
  · contradiction

theorem notMem_joined
    {char : Char}
    (apart : char ≠ '/')
    (above : char ∉ directory.toList)
    (below : char ∉ name.toList) :
    char ∉ (joined directory name).toList := by
  unfold joined
  have slash : "/".toList = ['/'] := by decide
  split
  · exact below
  · split <;> simp [String.toList_append, slash, above, below, apart]

theorem notMem_of_mem_everything
    (tree : host.root.IsTree)
    {names : List String}
    (outcome : everything host onlyDirectories room directory = .ok names)
    (held : name ∈ names) :
    '\x00' ∉ name.toList := by
  induction room generalizing name directory names with
  | zero => contradiction
  | succ room ih =>
    obtain ⟨found, mapped, outcome⟩ := bind_eq_ok_iff.mp outcome
    cases outcome
    obtain ⟨inner, among, held⟩ := List.mem_flatten.mp held
    obtain ⟨entry, listed, outcome⟩ := (mem_iff_of_mapM_eq_ok mapped).mp among
    obtain ⟨below, deeper, outcome⟩ := bind_eq_ok_iff.mp outcome
    cases outcome
    have clean := (isPlain_of_mem_listing tree (List.mem_of_mem_filter listed)).isClean
    rcases List.mem_cons.mp held with rfl | held
    · exact clean
    · obtain ⟨last, inside, rfl⟩ := List.mem_map.mp held
      exact notMem_joined (by decide) clean (ih deeper inside)

/-- Names lead through so many directories, each of them an entry of the one before. -/
inductive IsNested (host : Host) : Nat → String → Prop
  | here {directory : String} : IsNested host 0 directory
  | inside {depth : Nat} {directory name : String} :
    name ∈ listing host false directory →
    IsNested host depth (joined directory name) → IsNested host (depth + 1) directory

/-- Only directories that are nested deeper than there is room for keep a directory from having names of
everything inside it. -/
theorem everything_eq_error
    {failure : Failure}
    (outcome : everything host onlyDirectories room directory = .error failure) :
    failure = .tooDeep ∧ IsNested host room directory := by
  induction room generalizing directory with
  | zero => exact ⟨(Except.error.inj outcome).symm, .here⟩
  | succ room ih =>
    rcases bind_eq_error_iff.mp outcome with failed | ⟨found, -, outcome⟩
    · obtain ⟨name, listed, failed⟩ := exists_of_mapM_eq_error failed
      rcases bind_eq_error_iff.mp failed with deeper | ⟨below, -, outcome⟩
      · obtain ⟨same, nested⟩ := ih deeper
        exact ⟨same, .inside (listing_subset (List.mem_of_mem_filter listed)) nested⟩
      · contradiction
    · contradiction

/-- Only a null character, or too little room, keeps a part of a pattern from standing for names, and
none of these names has a null character that is not in the part itself. -/
theorem inside_cases
    (tree : host.root.IsTree)
    (onlyDirectories : Bool)
    (room : Nat)
    (part directory : String) :
    match inside host onlyDirectories room part directory with
    | .ok names => '\x00' ∉ part.toList → ∀ name ∈ names, '\x00' ∉ name.toList
    | .error failure =>
      '\x00' ∈ directory.toList ∨ failure = .tooDeep ∧ IsNested host room directory := by
  have empty : '\x00' ∉ "".toList := by decide
  unfold inside
  split
  · next names outcome =>
    intro clean name held
    split at outcome
    · split at outcome
      · contradiction
      · split at outcome
        · obtain ⟨below, deeper, outcome⟩ := bind_eq_ok_iff.mp outcome
          cases outcome
          rcases List.mem_append.mp held with itself | held
          · split at itself
            · rwa [List.mem_singleton.mp itself]
            · contradiction
          · exact notMem_of_mem_everything tree deeper held
        · cases outcome
          have listed := List.mem_of_mem_filter held
          split at listed
          · exact (isPlain_of_mem_listing tree listed).isClean
          · exact (isPlain_of_mem_listing tree (List.mem_of_mem_filter listed)).isClean
    · split at outcome
      · cases outcome
        split at held
        · rwa [List.mem_singleton.mp held]
        · contradiction
      · cases outcome
        split at held
        · rwa [List.mem_singleton.mp held]
        · contradiction
  · next failure outcome =>
    split at outcome
    · split at outcome
      · next unclean => exact .inl (by simpa using unclean)
      · split at outcome
        · rcases bind_eq_error_iff.mp outcome with deep | ⟨below, -, outcome⟩
          · exact .inr (everything_eq_error deep)
          · contradiction
        · contradiction
    · split at outcome <;> contradiction

/-! ## Names that match a pattern -/

/-- The directories in which the last part of a pattern is looked for. -/
def directoriesOf (host : Host) (room : Nat) (pattern : List Char) : Except Failure (List String) :=
  if (splitLast pattern).1 ≠ pattern ∧ Pattern.isMagic (String.ofList (splitLast pattern).1) then
    expand host true room (splitLast pattern).1
  else .ok [String.ofList (splitLast pattern).1]

theorem expand_succ (host : Host) (onlyDirectories : Bool) (room : Nat) (pattern : List Char) :
    expand host onlyDirectories (room + 1) pattern =
      (do
        let directories ← directoriesOf host room pattern
        let found ← directories.mapM fun directory => do
          let names ← inside host onlyDirectories room (String.ofList (splitLast pattern).2) directory
          return names.map (joined directory)
        return found.flatten) := by
  rw [expand, directoriesOf]
  split <;> rfl

theorem splitLast_subset (pattern : List Char) :
    (splitLast pattern).1 ⊆ pattern ∧ (splitLast pattern).2 ⊆ pattern := by
  have behind : (pattern.reverse.takeWhile (· != '/')).reverse ⊆ pattern := fun _ held =>
    List.mem_reverse.mp ((List.takeWhile_prefix _).subset (List.mem_reverse.mp held))
  unfold splitLast
  dsimp only
  refine ⟨fun char held => ?_, behind⟩
  split at held
  · exact List.mem_of_mem_take held
  · have inside := (List.dropWhile_suffix _).subset (List.mem_reverse.mp held)
    exact List.mem_of_mem_take (List.mem_reverse.mp inside)

theorem isPrefix_splitLast (pattern : List Char) : (splitLast pattern).1 <+: pattern := by
  unfold splitLast
  dsimp only
  split
  · exact List.take_prefix _ _
  · rw [← List.reverse_suffix, List.reverse_reverse]
    exact (List.dropWhile_suffix _).trans (List.reverse_suffix.mpr (List.take_prefix _ _))

theorem exists_cut_of_mem {pattern : List Char} (slashed : '/' ∈ pattern) :
    ∃ front behind, pattern = front ++ '/' :: behind ∧ '/' ∉ behind := by
  obtain ⟨behind, front, spelled, whole⟩ :=
    List.eq_append_cons_of_mem (List.mem_reverse.mpr slashed)
  refine ⟨front.reverse, behind.reverse, ?_, by simpa using whole⟩
  rw [← List.reverse_reverse pattern, spelled]
  simp

/-- A pattern in front of the last slash of another one has fewer slashes. -/
theorem count_splitLast_lt
    {pattern : List Char}
    (isMagic : Pattern.isMagic (String.ofList (splitLast pattern).1) = true) :
    (splitLast pattern).1.count '/' < pattern.count '/' := by
  rw [Pattern.isMagic, String.toList_ofList, List.any_eq_true] at isMagic
  obtain ⟨char, held, magic⟩ := isMagic
  by_cases slashed : '/' ∈ pattern
  · obtain ⟨front, behind, rfl, whole⟩ := exists_cut_of_mem slashed
    rw [splitLast_append_cons whole] at held ⊢
    dsimp only at held ⊢
    split at held
    · next none =>
      -- nothing but slashes is in front of the last one
      have only : char = '/' := by
        rw [List.isEmpty_iff, List.reverse_eq_nil_iff, List.dropWhile_eq_nil_iff] at none
        rcases List.mem_append.mp held with held | held
        · simpa using none char (List.mem_reverse.mpr held)
        · exact List.mem_singleton.mp held
      rw [only] at magic
      exact absurd magic (by decide)
    · next some =>
      have fewer : (front.reverse.dropWhile (· == '/')).reverse.count '/' ≤ front.count '/' := by
        rw [List.count_reverse, ← front.count_reverse]
        exact (List.dropWhile_suffix _).sublist.count_le _
      rw [if_neg some, List.count_append, List.count_cons_self]
      omega
  · have all : pattern.reverse.takeWhile (· != '/') = pattern.reverse := by
      rw [List.takeWhile_eq_self_iff]
      intro other inside
      rw [bne_iff_ne]
      rintro rfl
      exact slashed (List.mem_reverse.mp inside)
    simp [splitLast, all] at held

/-- What is in front of the last slash of an absolute pattern is absolute. -/
theorem head?_splitLast {pattern : List Char} (begins : pattern.head? = some '/') :
    (splitLast pattern).1.head? = some '/' := by
  obtain ⟨front, behind, rfl, whole⟩ := exists_cut_of_mem (List.mem_of_head? begins)
  have higher := isPrefix_splitLast (front ++ '/' :: behind)
  have nonempty : (splitLast (front ++ '/' :: behind)).1 ≠ [] := by
    rw [splitLast_append_cons whole]
    dsimp only
    split
    · simp
    · next some => simpa using some
  obtain ⟨rest, same⟩ := higher
  rw [← same, List.head?_append] at begins
  cases known : (splitLast (front ++ '/' :: behind)).1 with
  | nil => exact absurd known nonempty
  | cons char others => simpa [known] using begins

theorem head?_joined (begins : directory.toList.head? = some '/') (name : String) :
    (joined directory name).toList.head? = some '/' := by
  have nonempty : directory ≠ "" := by
    rintro rfl
    exact absurd begins (by decide)
  unfold joined
  split
  · simp_all
  · split <;> simp [String.toList_append, begins]

/-- Names that stand for an absolute pattern: they are absolute, and none of them has a null character
that is not in the pattern itself. -/
def Stand (pattern : List Char) (names : List String) : Prop :=
  ∀ name ∈ names,
    name.toList.head? = some '/' ∧ ('\x00' ∉ pattern → '\x00' ∉ name.toList)

/-- A directory in which a part of a pattern is looked for. -/
def IsSearchedFor (host : Host) (pattern : List Char) (directory : String) : Prop :=
  ∃ room front names, front <+: pattern ∧ directoriesOf host room front = .ok names ∧
    directory ∈ names

/-- There is too little room for the parts of a pattern, together with the directories that are nested in
one another below one in which a part is looked for. -/
def Exceeds (host : Host) (room : Nat) (pattern : List Char) : Prop :=
  room ≤ pattern.count '/' ∨
    ∃ depth directory, IsSearchedFor host pattern directory ∧ IsNested host depth directory ∧
      room ≤ pattern.count '/' + depth + 1

theorem Exceeds.of_front
    {pattern : List Char}
    (isMagic : Pattern.isMagic (String.ofList (splitLast pattern).1) = true)
    (exceeds : Exceeds host room (splitLast pattern).1) :
    Exceeds host (room + 1) pattern := by
  have fewer := count_splitLast_lt isMagic
  rcases exceeds with long | ⟨depth, directory, ⟨inner, front, names, above, known, among⟩, nested, deep⟩
  · exact .inl (by omega)
  · exact .inr ⟨depth, directory,
      ⟨inner, front, names, above.trans (isPrefix_splitLast pattern), known, among⟩, nested, by omega⟩

/-- The directories in which the last part is looked for stand for the pattern in front of it. -/
theorem directoriesOf_cases
    {pattern : List Char}
    (begins : pattern.head? = some '/')
    (higher : match expand host true room (splitLast pattern).1 with
      | .ok names => Stand (splitLast pattern).1 names
      | .error failure => '\x00' ∈ (splitLast pattern).1 ∨
          failure = .tooDeep ∧ Exceeds host room (splitLast pattern).1) :
    match directoriesOf host room pattern with
    | .ok directories => Stand pattern directories
    | .error failure => '\x00' ∈ pattern ∨ failure = .tooDeep ∧ Exceeds host (room + 1) pattern := by
  have below := (splitLast_subset pattern).1
  rw [directoriesOf]
  split
  · next known =>
    split at known
    · rw [known] at higher
      exact fun directory held => ⟨(higher directory held).1, fun whole =>
        (higher directory held).2 fun inside => whole (below inside)⟩
    · cases known
      intro directory held
      rw [List.mem_singleton.mp held, String.toList_ofList]
      exact ⟨head?_splitLast begins, fun whole inside => whole (below inside)⟩
  · next failed =>
    split at failed
    · next deeper =>
      rw [failed] at higher
      exact higher.imp (fun inside => below inside) (And.imp_right (.of_front deeper.2))
    · contradiction

/-- Only a null character or too little room keeps an absolute pattern from standing for names. -/
theorem expand_cases
    (tree : host.root.IsTree)
    {pattern : List Char}
    (begins : pattern.head? = some '/') :
    match expand host onlyDirectories room pattern with
    | .ok names => Stand pattern names
    | .error failure => '\x00' ∈ pattern ∨ failure = .tooDeep ∧ Exceeds host room pattern := by
  induction room generalizing onlyDirectories pattern with
  | zero => exact .inr ⟨rfl, .inl (Nat.zero_le _)⟩
  | succ room ih =>
    have above := directoriesOf_cases begins (@ih true _ (head?_splitLast begins))
    rw [expand_succ]
    split
    · next names outcome =>
      obtain ⟨directories, known, outcome⟩ := bind_eq_ok_iff.mp outcome
      obtain ⟨found, mapped, outcome⟩ := bind_eq_ok_iff.mp outcome
      cases outcome
      rw [known] at above
      intro name held
      obtain ⟨others, inward, held⟩ := List.mem_flatten.mp held
      obtain ⟨directory, listed, outcome⟩ := (mem_iff_of_mapM_eq_ok mapped).mp inward
      obtain ⟨inner, matched, outcome⟩ := bind_eq_ok_iff.mp outcome
      cases outcome
      obtain ⟨last, among, rfl⟩ := List.mem_map.mp held
      obtain ⟨begins, clean⟩ := above directory listed
      refine ⟨head?_joined begins last, fun whole => notMem_joined (by decide) (clean whole) ?_⟩
      have cases := inside_cases tree onlyDirectories room (String.ofList (splitLast pattern).2)
        directory
      rw [matched] at cases
      refine cases (fun unclean => whole ?_) last among
      rw [String.toList_ofList] at unclean
      exact (splitLast_subset pattern).2 unclean
    · next failure outcome =>
      rcases bind_eq_error_iff.mp outcome with known | ⟨directories, known, outcome⟩
      · rwa [known] at above
      rw [known] at above
      rcases bind_eq_error_iff.mp outcome with outcome | ⟨found, -, outcome⟩
      · obtain ⟨directory, listed, outcome⟩ := exists_of_mapM_eq_error outcome
        rcases bind_eq_error_iff.mp outcome with outcome | ⟨names, -, outcome⟩
        · have cases := inside_cases tree onlyDirectories room
            (String.ofList (splitLast pattern).2) directory
          rw [outcome] at cases
          rcases cases with unclean | ⟨same, nested⟩
          · exact .inl (by_contra fun whole => (above directory listed).2 whole unclean)
          · exact .inr ⟨same, .inr ⟨room, directory,
              ⟨room, pattern, directories, List.prefix_rfl, known, listed⟩, nested, by omega⟩⟩
        · contradiction
      · contradiction

end Glob

/-! ## Names in order -/

theorem inserts_insertText : Inserts (fun _ _ => True) insertText where
  nil _ := rfl
  cons text other rest := by
    rw [insertText]
    split
    · exact .inl ⟨trivial, rfl⟩
    · exact .inr ⟨trivial, rfl⟩

theorem perm_sortTexts (texts : List String) : (sortTexts texts).Perm texts := by
  simpa [sortTexts] using inserts_insertText.perm_foldl texts []

theorem inserts_insertParts : Inserts (fun _ _ => True) insertParts where
  nil _ := rfl
  cons parts other rest := by
    rw [insertParts]
    split
    · exact .inl ⟨trivial, rfl⟩
    · exact .inr ⟨trivial, rfl⟩

theorem perm_sortParts (names : List (List String)) : (sortParts names).Perm names := by
  simpa [sortParts] using inserts_insertParts.perm_foldl names []

/-! ## Names that lead to files -/

namespace Host

variable {host : Host} {kind : FileNode → Bool} {path written : String} {failure : Failure}

/-- A name is looked up with a fault that means more than that there is nothing. -/
def IsRefused (host : Host) (path written : String) (failure : Failure) : Prop :=
  ∃ fault, fault.isAbsence = false ∧ host.find path = .error fault ∧ failure = fault.failure written

theorem leadsTo_eq_true_iff :
    host.leadsTo kind path written = .ok true ↔
      ∃ node, host.find path = .ok node ∧ kind node = true := by
  unfold leadsTo
  split
  · next node known => simp [known]
  · next fault known => split <;> simp [known]

theorem leadsTo_eq_error_iff :
    host.leadsTo kind path written = .error failure ↔ host.IsRefused path written failure := by
  unfold leadsTo IsRefused
  split
  · next node known => simp [known]
  · next fault known =>
    cases absence : fault.isAbsence with
    | true => simp [known, absence]
    | false =>
      simp only [Bool.false_eq_true, if_false, known, Except.error.injEq]
      exact ⟨fun same => ⟨fault, absence, rfl, same.symm⟩,
        fun ⟨_, _, same, why⟩ => same ▸ why.symm⟩

theorem isFileAt_eq_true_iff :
    host.isFileAt path = .ok true ↔ ∃ bytes, host.find path = .ok (.file bytes) := by
  rw [isFileAt, leadsTo_eq_true_iff]
  constructor
  · rintro ⟨node, known, kind⟩
    cases node with
    | file bytes => exact ⟨bytes, known⟩
    | _ => contradiction
  · rintro ⟨bytes, known⟩
    exact ⟨_, known, rfl⟩

end Host

variable {host : Host}

theorem onlyFiles_cons (name : PathName) (rest : List PathName) :
    onlyFiles host (name :: rest) =
      (do
        let isFile ← host.isFileAt name.text
        let kept ← onlyFiles host rest
        return if isFile then name :: kept else kept) := by
  rw [onlyFiles, onlyFiles, List.mapM_cons]
  simp only [bind_assoc, pure_bind]
  refine bind_congr fun isFile => bind_congr fun lists => ?_
  cases isFile <;> rfl

/-- The names that lead to files are kept. -/
theorem eq_filter_of_onlyFiles
    {names kept : List PathName}
    (outcome : onlyFiles host names = .ok kept) :
    kept = names.filter fun name => host.isFileAt name.text = .ok true := by
  induction names generalizing kept with
  | nil => exact (Except.ok.inj outcome).symm
  | cons name rest ih =>
    rw [onlyFiles_cons] at outcome
    obtain ⟨isFile, known, outcome⟩ := bind_eq_ok_iff.mp outcome
    obtain ⟨others, behind, outcome⟩ := bind_eq_ok_iff.mp outcome
    cases outcome
    rw [List.filter_cons, ← ih behind, known]
    cases isFile <;> simp

theorem mem_onlyFiles
    {names kept : List PathName}
    (outcome : onlyFiles host names = .ok kept)
    {name : PathName} :
    name ∈ kept ↔ name ∈ names ∧ ∃ bytes, host.find name.text = .ok (.file bytes) := by
  rw [eq_filter_of_onlyFiles outcome, List.mem_filter, decide_eq_true_iff,
    Host.isFileAt_eq_true_iff]

theorem onlyFiles_eq_error
    {names : List PathName}
    {failure : Failure}
    (outcome : onlyFiles host names = .error failure) :
    ∃ name ∈ names, host.isFileAt name.text = .error failure := by
  induction names with
  | nil => contradiction
  | cons name rest ih =>
    rw [onlyFiles_cons] at outcome
    rcases bind_eq_error_iff.mp outcome with known | ⟨isFile, -, outcome⟩
    · exact ⟨name, List.mem_cons_self, known⟩
    · rcases bind_eq_error_iff.mp outcome with behind | ⟨kept, -, outcome⟩
      · obtain ⟨other, held, known⟩ := ih behind
        exact ⟨other, List.mem_cons_of_mem _ held, known⟩
      · contradiction

/-! ## Drawings below a directory -/

/-- A directory that is searched for drawings below another one, so many levels deeper. -/
inductive IsSearched (host : Host) : Nat → PathName → PathName → Prop
  | itself {name : PathName} : IsSearched host 0 name name
  | deeper {depth : Nat} {name directory : PathName} {entries below : List (String × FileNode)}
      {inner : String} :
    host.entriesAt name.text = .ok entries →
    (inner, .directory below) ∈ entries →
    IsSearched host depth (name.below [inner]) directory → IsSearched host (depth + 1) name directory

/-- The name of an entry of a directory that is searched for drawings. -/
inductive IsMet (host : Host) (name : PathName) : PathName → Prop
  | entry {depth : Nat} {directory : PathName} {entries : List (String × FileNode)}
      {entry : String × FileNode} :
    IsSearched host depth name directory →
    host.entriesAt directory.text = .ok entries →
    entry ∈ entries → IsMet host name (directory.below [entry.1])

section Drawings

variable {room : Nat} {name drawing : PathName} {drawings : List PathName}
  {entries below : List (String × FileNode)} {inner : String}

theorem IsMet.deeper
    (listed : host.entriesAt name.text = .ok entries)
    (held : (inner, .directory below) ∈ entries)
    {entry : PathName}
    (met : IsMet host (name.below [inner]) entry) :
    IsMet host name entry := by
  obtain ⟨searched, known, among⟩ := met
  exact .entry (.deeper listed held searched) known among

theorem isPlain_of_mem_entriesAt
    (tree : host.root.IsTree)
    (listed : host.entriesAt name.text = .ok entries)
    {entry : String × FileNode}
    (held : entry ∈ entries) :
    IsPlain entry.1 := by
  obtain ⟨place, -, there, -⟩ := Host.entriesAt_eq_ok_iff.mp listed
  exact FileNode.isPlain_of_mem_keys (FileNode.isProper_of_at? tree.isProper there)
    (List.mem_map_of_mem held)

theorem isTidy_below (tidy : name.IsTidy) (plain : IsPlain inner) :
    (name.below [inner]).IsTidy := by
  intro part held
  rcases List.mem_append.mp held with above | last
  · exact tidy part above
  · rw [List.mem_singleton.mp last]
    exact ⟨plain.isTelling, plain.isWhole⟩

/-- The drawings below a directory have tidy names and lead to files. -/
theorem of_mem_drawingsIn
    (tree : host.root.IsTree)
    (tidy : name.IsTidy)
    (outcome : drawingsIn host room name = .ok drawings)
    (held : drawing ∈ drawings) :
    drawing.root = name.root ∧ drawing.IsTidy ∧
      ∃ bytes, host.find drawing.text = .ok (.file bytes) := by
  induction room generalizing name drawings with
  | zero => contradiction
  | succ room ih =>
    rw [drawingsIn] at outcome
    split at outcome
    · cases outcome
      contradiction
    · contradiction
    · next entries listed =>
      have plain := fun entry => @isPlain_of_mem_entriesAt host name entries tree listed entry
      obtain ⟨own, drawn, outcome⟩ := bind_eq_ok_iff.mp outcome
      obtain ⟨deeper, searched, outcome⟩ := bind_eq_ok_iff.mp outcome
      cases outcome
      rcases List.mem_append.mp held with held | held
      · obtain ⟨among, file⟩ := (mem_onlyFiles drawn).mp held
        obtain ⟨entry, kept, rfl⟩ := List.mem_map.mp among
        exact ⟨rfl, isTidy_below tidy (plain entry (List.mem_of_mem_filter kept)), file⟩
      · obtain ⟨others, among, held⟩ := List.mem_flatten.mp held
        obtain ⟨entry, among, outcome⟩ := (mem_iff_of_mapM_eq_ok searched).mp among
        split at outcome
        · have inward := isTidy_below tidy (plain entry ((List.takeWhile_sublist _).subset among))
          exact @ih (name.below [entry.1]) _ inward outcome held
        · obtain ⟨_, -, rfl⟩ := map_eq_ok_iff.mp outcome
          contradiction
        · cases outcome
          contradiction

theorem mem_drawingsBelow
    (tree : host.root.IsTree)
    (tidy : name.IsTidy)
    (outcome : drawingsBelow host name = .ok drawings)
    (held : drawing ∈ drawings) :
    drawing.root = name.root ∧ drawing.IsTidy ∧
      ∃ bytes, host.find drawing.text = .ok (.file bytes) := by
  obtain ⟨found, searched, same⟩ := bind_eq_ok_iff.mp outcome
  cases same
  obtain ⟨parts, sorted, rfl⟩ := List.mem_map.mp held
  obtain ⟨other, among, rfl⟩ := List.mem_map.mp ((perm_sortParts _).mem_iff.mp sorted)
  obtain ⟨same, rest⟩ := of_mem_drawingsIn tree tidy searched among
  obtain ⟨root, parts⟩ := other
  cases same
  exact ⟨rfl, rest⟩

end Drawings

/-! ## What an input stands for -/

variable {place : Location} {input : String}

/-- The pattern that an input with characters of patterns is, read from a place. -/
def patternOf (place : Location) (input : String) : String :=
  let name := PathName.ofText input
  if name.isAbsolute then input else (place.pathName.join name).text

theorem head?_patternOf (place : Location) (input : String) :
    (patternOf place input).toList.head? = some '/' := by
  unfold patternOf
  dsimp only
  split
  · next absolute => exact (PathName.isAbsolute_ofText_iff input).mp absolute
  · exact PathName.head?_text (PathName.isAbsolute_join rfl _)

theorem expandInput_of_isMagic (isMagic : Pattern.isMagic input = true) :
    (expandInput host place.pathName input).result =
      (glob host (patternOf place input)).bind fun names =>
        onlyFiles host (names.map PathName.ofText) := by
  rw [expandInput, if_pos isMagic, patternOf]
  dsimp only
  split <;> rename_i known <;> rw [known] <;> rfl

theorem expandInput_of_isPlain (isPlain : Pattern.isMagic input = false) :
    (expandInput host place.pathName input).result =
      (host.isDirectoryAt (place.pathName.join (.ofText input)).text).bind fun isDirectory =>
        if isDirectory then drawingsBelow host (place.pathName.join (.ofText input))
        else .ok [place.pathName.join (.ofText input)] := by
  rw [expandInput, isPlain]
  simp only [Bool.false_eq_true, if_false]
  cases known : host.isDirectoryAt (place.pathName.join (.ofText input)).text with
  | error failure => rfl
  | ok isDirectory =>
    rw [Except.bind]
    cases isDirectory with
    | true => rw [if_pos rfl]
    | false => rw [if_neg Bool.false_ne_true]

/-- The names that an input stands for are absolute and tidy, and they lead to files unless the input
is a plain name. -/
theorem of_expandInput
    (tree : host.root.IsTree)
    (pure : Host.IsPure place)
    {names : List PathName}
    (outcome : (expandInput host place.pathName input).result = .ok names) :
    (∀ name ∈ names, name.isAbsolute = true ∧ name.IsTidy) ∧
      (Pattern.isMagic input = false ∧ names = [place.pathName.join (.ofText input)] ∨
        ∀ name ∈ names, ∃ bytes, host.find name.text = .ok (.file bytes)) := by
  have absolute := PathName.isAbsolute_join (rfl : place.pathName.isAbsolute = true)
    (PathName.ofText input)
  have tidy := (Host.isTidy_pathName pure).join (PathName.isTidy_ofText input)
  cases isMagic : Pattern.isMagic input with
  | true =>
    rw [expandInput_of_isMagic isMagic] at outcome
    obtain ⟨texts, found, outcome⟩ := bind_eq_ok_iff.mp outcome
    refine ⟨fun name held => ?_, .inr fun name held => ((mem_onlyFiles outcome).mp held).2⟩
    obtain ⟨text, among, rfl⟩ := List.mem_map.mp ((mem_onlyFiles outcome).mp held).1
    refine ⟨(PathName.isAbsolute_ofText_iff text).mpr ?_, PathName.isTidy_ofText text⟩
    have cases := @Glob.expand_cases host false host.room.directories tree _
      (head?_patternOf place input)
    obtain ⟨others, expanded, rfl⟩ := map_eq_ok_iff.mp found
    rw [expanded] at cases
    exact (cases text ((perm_sortTexts others).mem_iff.mp among)).1
  | false =>
    rw [expandInput_of_isPlain isMagic] at outcome
    obtain ⟨isDirectory, known, outcome⟩ := bind_eq_ok_iff.mp outcome
    cases isDirectory with
    | true =>
      rw [if_pos rfl] at outcome
      have each := fun name (held : name ∈ names) => mem_drawingsBelow tree tidy outcome held
      refine ⟨fun name held => ⟨?_, (each name held).2.1⟩, .inr fun name held => (each name held).2.2⟩
      rw [PathName.isAbsolute, (each name held).1]
      exact absolute
    | false =>
      cases outcome
      refine ⟨fun name held => ?_, .inl ⟨rfl, rfl⟩⟩
      rw [List.mem_singleton.mp held]
      exact ⟨absolute, tidy⟩

/-- The texts of names that are looked up for an input: its own, those of what is below the directory that
it leads to, and those that it matches. -/
inductive LooksUp (host : Host) (place : Location) (input : String) : String → Prop
  | itself :
    Pattern.isMagic input = false →
    LooksUp host place input (place.pathName.join (.ofText input)).text
  | below {entry : PathName} :
    Pattern.isMagic input = false →
    IsMet host (place.pathName.join (.ofText input)) entry →
    LooksUp host place input entry.text
  | matching {names : List String} {name : String} :
    Pattern.isMagic input = true →
    glob host (patternOf place input) = .ok names →
    name ∈ names →
    LooksUp host place input (PathName.ofText name).text

/-- There is too little room for what an input stands for: for the directories below the one that it
names, or for the parts of a pattern. -/
inductive Overruns (host : Host) (place : Location) (input : String) : Prop
  | directories {directory : PathName} :
    Pattern.isMagic input = false →
    IsSearched host host.room.directories (place.pathName.join (.ofText input)) directory →
    Overruns host place input
  | pattern :
    Pattern.isMagic input = true →
    Glob.Exceeds host host.room.directories (patternOf place input).toList →
    Overruns host place input

end Files
end MarkupLint
