import MarkupLint.Proofs.Config.Loading
import MarkupLint.Proofs.Files.Enclosing

/-!
# Looking for configuration files

The search goes upward from a directory.  A directory settles it with the configuration file that it
has, or because this cannot be told: the description of a project cannot be read, or the file system
refuses to say what a name leads to, which it only does for names that are too long and for those that
may not be looked up.  What is further up than the directory that settles the search makes no
difference to a search from the same directory, unless a link leads there that stands under the name of
a configuration file.
-/

namespace MarkupLint
namespace Config

open Files (FileNode Host Location PathFault)

/-! ## One directory -/

/-- What the name of a file in the directory at a place leads to. -/
def entryIn (host : Host) (place : Location) (name : String) : Except PathFault FileNode :=
  host.find (Location.pathName (name :: place)).text

/-- What reading the file with a name in the directory at a place leads to. -/
def readIn (host : Host) (place : Location) (name : String) : Except PathFault (List UInt8) :=
  host.readBytes (Location.pathName (name :: place)).text

/-- The file system says that there is no regular file with a name in the directory at a place. -/
structure Lacks (host : Host) (place : Location) (name : String) : Prop where
  isTold : ∀ fault, entryIn host place name = .error fault → fault.isAbsence = true
  irregular : ∀ bytes, entryIn host place name ≠ .ok (.file bytes)

/-- A table describes a project with the section of the configuration among its tools. -/
def Configures (project : Table Value) : Prop :=
  ∃ tools, project.value? "tool" = some (.table tools) ∧ Table.hasKey tools sectionName = true

/-- The configuration file that a directory has: its own one, or else the description of a project with
the section. -/
inductive Chosen (host : Host) (place : Location) : ConfigFile → Prop where
  | own
      (bytes : List UInt8)
      (regular : entryIn host place ownFileName = .ok (.file bytes)) :
      Chosen host place (fileIn place.pathName ownFileName)
  | project
      (bytes : List UInt8)
      (text : List Char)
      (project : Table Value)
      (unowned : Lacks host place ownFileName)
      (readable : readIn host place projectFileName = .ok bytes)
      (decoded : Text.decode bytes = .ok text)
      (read : Toml.read host.room.values text = .ok project)
      (configures : Configures project) :
      Chosen host place (fileIn place.pathName projectFileName)

/-- A directory has no configuration file. -/
inductive Passed (host : Host) (place : Location) : Prop where
  | vacant
      (unowned : Lacks host place ownFileName)
      (undescribed : Lacks host place projectFileName)
  | unconcerned
      (bytes : List UInt8)
      (text : List Char)
      (project : Table Value)
      (unowned : Lacks host place ownFileName)
      (readable : readIn host place projectFileName = .ok bytes)
      (decoded : Text.decode bytes = .ok text)
      (read : Toml.read host.room.values text = .ok project)
      (unconfigured : ¬Configures project)

/-- Why it cannot be told whether a directory has a configuration file. -/
inductive Halts (host : Host) (place : Location) : Stop → Prop where
  | unread
      (bytes : List UInt8)
      (stop : Stop)
      (unowned : Lacks host place ownFileName)
      (readable : readIn host place projectFileName = .ok bytes)
      (refused : (fileIn place.pathName projectFileName).Tabled host.room.values bytes
        (.error stop)) :
      Halts host place stop
  | forbidden
      (bytes : List UInt8)
      (unowned : Lacks host place ownFileName)
      (regular : entryIn host place projectFileName = .ok (.file bytes))
      (unreadable : readIn host place projectFileName = .error .notPermitted) :
      Halts host place ((fileIn place.pathName projectFileName).stop (.unreadable
        (PathFault.notPermitted.message (fileIn place.pathName projectFileName).text)))
  | untold
      (name : String)
      (fault : PathFault)
      (next : name = ownFileName ∨ name = projectFileName ∧ Lacks host place ownFileName)
      (refused : entryIn host place name = .error fault)
      (isRefusal : fault.isAbsence = false) :
      Halts host place (.failure (fault.failure (fileIn place.pathName name).text))

/-- What looking for a configuration file in a directory leads to. -/
def Yields (host : Host) (place : Location) : Except Stop (Option ConfigFile) → Prop
  | .ok (some file) => Chosen host place file
  | .ok none => Passed host place
  | .error stop => Halts host place stop

theorem hasSection_iff {project : Table Value} : hasSection project = true ↔ Configures project := by
  unfold hasSection toolsOf? Configures
  split
  · next missing =>
    simp only [missing, Option.any_some, reduceCtorEq, false_and, exists_false, iff_false]
    exact Bool.false_ne_true
  · next tools known => simp [known]
  · next other isTable known =>
    simp only [known, Option.any_none, Bool.false_eq_true, false_iff, not_exists, not_and]
    rintro tools ⟨⟩
    exact absurd rfl (isTable tools)

section Directory

variable {host : Host} {place : Location} {name : String}

theorem place_fileIn (place : Location) (name : String) :
    (fileIn place.pathName name).place = Location.pathName (name :: place) := by
  simp [fileIn, ConfigFile.atPlace, Files.PathName.join, Files.PathName.isAbsolute, Location.pathName]

theorem isPresent_of_regular {bytes : List UInt8}
    (regular : entryIn host place name = .ok (.file bytes)) :
    (fileIn place.pathName name).isPresent host = .ok true := by
  rw [entryIn] at regular
  rw [ConfigFile.isPresent, place_fileIn, Host.leadsTo, regular]
  rfl

theorem isPresent_of_lacks (lacks : Lacks host place name) :
    (fileIn place.pathName name).isPresent host = .ok false := by
  obtain ⟨told, irregular⟩ := lacks
  rw [ConfigFile.isPresent, place_fileIn, Host.leadsTo]
  rw [entryIn] at told irregular
  split
  · next node found =>
    cases node with
    | file bytes => exact absurd found (irregular bytes)
    | _ => rfl
  · next fault failed => rw [if_pos (told fault failed)]

theorem isPresent_of_untold
    {fault : PathFault}
    (refused : entryIn host place name = .error fault)
    (isRefusal : fault.isAbsence = false) :
    (fileIn place.pathName name).isPresent host =
      .error (fault.failure (fileIn place.pathName name).text) := by
  rw [entryIn] at refused
  simp only [ConfigFile.isPresent, place_fileIn, Host.leadsTo, refused, isRefusal, Bool.false_eq_true,
    if_false]

/-- A name leads to a regular file, does not, or the file system refuses to tell. -/
theorem presence_cases (host : Host) (place : Location) (name : String) :
    (∃ bytes, entryIn host place name = .ok (.file bytes)) ∨ Lacks host place name ∨
      ∃ fault, entryIn host place name = .error fault ∧ fault.isAbsence = false := by
  by_cases regular : ∃ bytes, entryIn host place name = .ok (.file bytes)
  · exact .inl regular
  · by_cases refused : ∃ fault, entryIn host place name = .error fault ∧ fault.isAbsence = false
    · exact .inr (.inr refused)
    · refine .inr (.inl ⟨fun fault failed => ?_, not_exists.mp regular⟩)
      exact Bool.not_eq_false _ ▸ fun refusal => refused ⟨fault, failed, refusal⟩

/-- What is read is a regular file. -/
theorem entryIn_of_readIn {bytes : List UInt8} (readable : readIn host place name = .ok bytes) :
    entryIn host place name = .ok (.file bytes) := by
  unfold readIn Host.readBytes at readable
  unfold entryIn Host.find
  split at readable
  · contradiction
  · next location located =>
    split at readable
    · next other there =>
      split at readable
      · cases readable
        simp only [there]
      · contradiction
    · contradiction
    · contradiction

/-- A regular file can be read if this is permitted. -/
theorem readIn_of_regular {bytes : List UInt8}
    (regular : entryIn host place name = .ok (.file bytes)) :
    readIn host place name = .ok bytes ∨ readIn host place name = .error .notPermitted := by
  obtain ⟨location, located, there⟩ := Host.find_eq_ok_iff.mp regular
  rw [readIn, Host.readBytes, located]
  dsimp only
  rw [there]
  by_cases permitted : host.reads location = true
  · exact .inl (if_pos permitted)
  · exact .inr (if_neg permitted)

/-- Whether bytes make up a table is told by the bytes alone. -/
theorem ConfigFile.table_of_tabled
    {file : ConfigFile}
    {bytes : List UInt8}
    {result : Except Stop (Table Value)}
    (read : host.readBytes file.place.text = .ok bytes)
    (tabled : file.Tabled host.room.values bytes result) :
    file.table host = result := by
  cases tabled with
  | ok text project decoded parsed =>
    simp only [table, read, decoded, parsed, Except.mapError]
  | error text refusal decoded refused fewDigits shallow =>
    simp only [table, read, decoded, refused, Except.mapError, refuse]
  | failure failure garbled =>
    cases garbled with
    | undecodable fault refused => simp only [table, read, refused]
    | tooManyDigits text refusal count decoded refused cause_eq =>
      simp only [table, read, decoded, refused, Except.mapError, refuse, cause_eq]
    | tooDeep text refusal decoded refused cause_eq =>
      simp only [table, read, decoded, refused, Except.mapError, refuse, cause_eq]

theorem table_of_readIn
    {bytes : List UInt8}
    {result : Except Stop (Table Value)}
    (readable : readIn host place name = .ok bytes)
    (tabled : (fileIn place.pathName name).Tabled host.room.values bytes result) :
    (fileIn place.pathName name).table host = result :=
  ConfigFile.table_of_tabled (by rwa [place_fileIn]) tabled

theorem candidateIn?_of_chosen {file : ConfigFile} (chosen : Chosen host place file) :
    candidateIn? host place.pathName = .ok (some file) := by
  rw [candidateIn?_eq]
  cases chosen with
  | own bytes regular => rw [isPresent_of_regular regular]
  | project bytes text project unowned readable decoded read configures =>
    simp only [isPresent_of_lacks unowned, isPresent_of_regular (entryIn_of_readIn readable),
      table_of_readIn readable (.ok text project decoded read), hasSection_iff.mpr configures, if_true]

theorem candidateIn?_of_passed (passed : Passed host place) :
    candidateIn? host place.pathName = .ok none := by
  rw [candidateIn?_eq]
  cases passed with
  | vacant unowned undescribed =>
    simp only [isPresent_of_lacks unowned, isPresent_of_lacks undescribed]
  | unconcerned bytes text project unowned readable decoded read unconfigured =>
    simp only [isPresent_of_lacks unowned, isPresent_of_regular (entryIn_of_readIn readable),
      table_of_readIn readable (.ok text project decoded read), hasSection_iff, unconfigured, if_false]

theorem candidateIn?_of_halts {stop : Stop} (halts : Halts host place stop) :
    candidateIn? host place.pathName = .error stop := by
  rw [candidateIn?_eq]
  cases halts with
  | unread bytes stop unowned readable refused =>
    simp only [isPresent_of_lacks unowned, isPresent_of_regular (entryIn_of_readIn readable),
      table_of_readIn readable refused]
  | forbidden bytes unowned regular unreadable =>
    have table_eq := @ConfigFile.table_of_notPermitted host (fileIn place.pathName projectFileName)
      (by rwa [place_fileIn])
    simp only [isPresent_of_lacks unowned, isPresent_of_regular regular, table_eq]
  | untold name fault next refused isRefusal =>
    obtain rfl | ⟨rfl, unowned⟩ := next
    · simp only [isPresent_of_untold refused isRefusal]
    · simp only [isPresent_of_lacks unowned, isPresent_of_untold refused isRefusal]

theorem exists_yields (host : Host) (place : Location) : ∃ result, Yields host place result := by
  obtain ⟨bytes, regular⟩ | unowned | ⟨fault, refused, isRefusal⟩ :=
    presence_cases host place ownFileName
  · exact ⟨.ok (some _), .own bytes regular⟩
  · obtain ⟨bytes, regular⟩ | undescribed | ⟨fault, refused, isRefusal⟩ :=
      presence_cases host place projectFileName
    · rcases readIn_of_regular regular with readable | unreadable
      · have tabled := @ConfigFile.tabled host (fileIn place.pathName projectFileName) bytes
          (by rwa [place_fileIn])
        generalize (fileIn place.pathName projectFileName).table host = result at tabled
        cases result with
        | error stop => exact ⟨.error stop, .unread bytes stop unowned readable tabled⟩
        | ok project =>
          obtain ⟨text, _, decoded, read⟩ := tabled
          by_cases configures : Configures project
          · exact ⟨.ok (some _), .project bytes text project unowned readable decoded read configures⟩
          · exact ⟨.ok none, .unconcerned bytes text project unowned readable decoded read configures⟩
      · exact ⟨.error _, .forbidden bytes unowned regular unreadable⟩
    · exact ⟨.ok none, .vacant unowned undescribed⟩
    · exact ⟨.error _, .untold projectFileName fault (.inr ⟨rfl, unowned⟩) refused isRefusal⟩
  · exact ⟨.error _, .untold ownFileName fault (.inl rfl) refused isRefusal⟩

/-- Looking in a directory has the one result that the files in it call for. -/
theorem candidateIn?_eq_iff {result : Except Stop (Option ConfigFile)} :
    candidateIn? host place.pathName = result ↔ Yields host place result := by
  have eq_of_yields : ∀ result, Yields host place result →
      candidateIn? host place.pathName = result := by
    intro result yields
    match result, yields with
    | .ok (some file), chosen => exact candidateIn?_of_chosen chosen
    | .ok none, passed => exact candidateIn?_of_passed passed
    | .error stop, halts => exact candidateIn?_of_halts halts
  refine ⟨fun looked => ?_, eq_of_yields result⟩
  obtain ⟨other, yields⟩ := exists_yields host place
  rwa [← looked, eq_of_yields other yields]

end Directory

/-! ## The way up -/

/-- The search from a place comes to another one, past all directories on the way. -/
inductive Reaches (host : Host) : Location → Location → Prop where
  | here (place : Location) : Reaches host place place
  | up {name : String} {place above : Location}
      (passed : Passed host (name :: place))
      (reaches : Reaches host place above) :
      Reaches host (name :: place) above

section Way

variable {host : Host} {place above : Location}

theorem Reaches.suffix (reaches : Reaches host place above) : above <:+ place := by
  induction reaches with
  | here place => exact List.suffix_rfl
  | up _ _ ih => exact ih.trans (List.suffix_cons _ _)

/-- A directory that is not passed is as far as the search comes. -/
theorem Reaches.eq_of_not_passed (reaches : Reaches host place above) (stays : ¬Passed host place) :
    above = place := by
  cases reaches with
  | here => rfl
  | up passed _ => exact absurd passed stays

theorem firstCandidate?_cons
    (host : Host)
    (directory : Files.PathName)
    (others : List Files.PathName) :
    firstCandidate? host (directory :: others) =
      match candidateIn? host directory with
      | .error stop => .error stop
      | .ok (some file) => .ok (some file)
      | .ok none => firstCandidate? host others := by
  rfl

/-- A search that passes the topmost directory finds nothing. -/
theorem firstCandidate?_top (passed : Passed host []) :
    firstCandidate? host (([] : Location).tails.map Location.pathName) = .ok none := by
  rw [List.tails, List.map_singleton, firstCandidate?_cons, candidateIn?_of_passed passed]
  rfl

/-- A search that passes a directory goes on above it. -/
theorem firstCandidate?_of_passed {name : String} (passed : Passed host (name :: place)) :
    firstCandidate? host ((name :: place).tails.map Location.pathName) =
      firstCandidate? host (place.tails.map Location.pathName) := by
  rw [List.tails, List.map_cons, firstCandidate?_cons, candidateIn?_of_passed passed]

/-- A search ends in the directory that it does not pass. -/
theorem firstCandidate?_of_not_passed (stays : ¬Passed host place) :
    firstCandidate? host (place.tails.map Location.pathName) = candidateIn? host place.pathName := by
  obtain ⟨others, tails_eq⟩ : ∃ others, place.tails = place :: others := by
    cases place <;> exact ⟨_, rfl⟩
  rw [tails_eq, List.map_cons, firstCandidate?_cons]
  split
  · next stop failed => exact failed.symm
  · next file found => exact found.symm
  · next missing => exact absurd (candidateIn?_eq_iff.mp missing) stays

/-- A search with a result comes past directories to the one that yields it. -/
theorem firstCandidate?_eq_iff
    {result : Except Stop (Option ConfigFile)}
    (settled : result ≠ .ok none) :
    firstCandidate? host (place.tails.map Location.pathName) = result ↔
      ∃ above, Reaches host place above ∧ Yields host above result := by
  have settles : ∀ above, Passed host above → ¬Yields host above result := fun above passed yields =>
    settled ((candidateIn?_eq_iff.mpr yields).symm.trans (candidateIn?_eq_iff.mpr passed))
  have stays : ∀ place, ¬Passed host place →
      (firstCandidate? host (place.tails.map Location.pathName) = result ↔
        ∃ above, Reaches host place above ∧ Yields host above result) := by
    intro place stays
    rw [firstCandidate?_of_not_passed stays, candidateIn?_eq_iff]
    refine ⟨fun yields => ⟨place, .here place, yields⟩, ?_⟩
    rintro ⟨above, reaches, yields⟩
    rwa [← reaches.eq_of_not_passed stays]
  induction place with
  | nil =>
    by_cases passed : Passed host []
    · rw [firstCandidate?_top passed]
      refine ⟨fun same => absurd same.symm settled, ?_⟩
      rintro ⟨above, reaches, yields⟩
      cases List.suffix_nil.mp reaches.suffix
      exact absurd yields (settles [] passed)
    · exact stays [] passed
  | cons name place ih =>
    by_cases passed : Passed host (name :: place)
    · rw [firstCandidate?_of_passed passed]
      refine ih.trans ⟨fun ⟨above, reaches, yields⟩ => ⟨above, .up passed reaches, yields⟩, ?_⟩
      rintro ⟨above, reaches, yields⟩
      cases reaches with
      | here => exact absurd yields (settles _ passed)
      | up _ reaches => exact ⟨above, reaches, yields⟩
    · exact stays (name :: place) passed

/-- A search finds nothing just if it comes past all directories. -/
theorem firstCandidate?_eq_none_iff :
    firstCandidate? host (place.tails.map Location.pathName) = .ok none ↔
      ∀ above, above <:+ place → Passed host above := by
  have stays : ∀ place, ¬Passed host place →
      firstCandidate? host (place.tails.map Location.pathName) ≠ .ok none := by
    intro place stays missing
    rw [firstCandidate?_of_not_passed stays] at missing
    exact stays (candidateIn?_eq_iff.mp missing)
  induction place with
  | nil =>
    by_cases passed : Passed host []
    · simpa only [firstCandidate?_top passed, List.suffix_nil, forall_eq, true_iff] using passed
    · simpa only [List.suffix_nil, forall_eq, passed, iff_false] using stays [] passed
  | cons name place ih =>
    simp only [List.suffix_cons_iff, forall_eq_or_imp]
    by_cases passed : Passed host (name :: place)
    · rw [firstCandidate?_of_passed passed]
      exact ih.trans ⟨fun all => ⟨passed, all⟩, And.right⟩
    · exact ⟨fun missing => absurd missing (stays _ passed), fun all => absurd all.1 passed⟩

end Way

/-- The directories upward from a place are those of the places above. -/
theorem directoriesFrom_eq (parts : List String) {count : Nat} (enough : count ≤ parts.length) :
    directoriesFrom ⟨.slash, parts⟩ count =
      (parts.take count).reverse.tails.map Location.pathName := by
  induction count with
  | zero => rfl
  | succ count ih =>
    rw [directoriesFrom, ih (Nat.le_of_succ_le enough), List.take_succ_eq_append_getElem enough,
      List.reverse_append, List.reverse_singleton, List.singleton_append, List.tails,
      List.map_cons]
    simp [Location.pathName]

theorem directoriesFrom_pathName (place : Location) :
    directoriesFrom place.pathName place.pathName.parts.length =
      place.tails.map Location.pathName := by
  rw [Location.pathName, directoriesFrom_eq _ le_rfl, List.take_length, List.reverse_reverse]

/-! ## What makes no difference -/

theorem IsFileName.isPlain {name : String} (isFileName : IsFileName name) : Files.IsPlain name := by
  obtain rfl | rfl := isFileName <;> decide

section Entry

variable {host : Host} {place : Location} {entries : List (String × FileNode)} {name : String}

/-- Unless it is too long or may not be looked up, a name under which no link stands in a directory
leads to what stands there. -/
theorem locateIn_eq
    (tree : host.root.IsTree)
    (there : host.root.at? place = some (.directory entries))
    (plain : Files.IsPlain name)
    (unlinked : ∀ target, host.root.at? (name :: place) ≠ some (.link target)) :
    host.locate true (Location.pathName (name :: place)).text =
      if Files.nameLimit < (Location.pathName (name :: place)).text.utf8ByteSize then
        .error .nameTooLong
      else if host.reaches (name :: place) = false then .error .notPermitted
      else if (host.root.at? (name :: place)).isSome then .ok (name :: place)
      else .error .notFound := by
  have pure : Host.IsPure (name :: place) := List.forall_mem_cons.mpr
    ⟨⟨.of_isPlain plain, plain.isClean, plain.isWhole⟩, Host.isPure_of_at? tree there⟩
  have clean := Host.notMem_text_pathName pure
  have whole : host.root.at? (place ++ []) = some (.directory entries) := by rwa [List.append_nil]
  split
  · next long => rw [Host.locate, if_neg (by simpa using clean), if_pos long]
  · next short =>
    rw [Host.locate_text tree rfl (Host.isTidy_pathName pure) clean (Nat.not_lt.mp short),
      Location.pathName, List.reverse_cons]
    split
    · next stuck => exact Host.walk_of_unreached tree.isProper (.of_isPlain plain) whole (by simpa) rfl
    · next reached =>
      rw [Bool.not_eq_false, Host.reaches, Bool.and_eq_true] at reached
      rw [Host.walk_reverse_append tree.isProper whole (by simpa using reached.2), List.append_nil]
      cases entry : host.root.at? (name :: place) with
      | none =>
        have missing := (FileNode.at?_cons there name).symm.trans entry
        rw [Host.walk, there]
        simp [Host.admits, reached.1, plain.ne, plain.isBelow, Nat.not_lt.mpr plain.isShort, missing]
      | some node =>
        have apart : ∀ target, node ≠ .link target := by
          rintro target rfl
          exact unlinked target entry
        rw [Host.walk_enter (.of_isPlain plain) reached.1 plain.isShort entry apart, Host.walk]
        rfl

/-- The file system only refuses to tell what a name leads to if it is too long, it may not be looked
up, or a link stands under it. -/
theorem linked_of_untold
    (tree : host.root.IsTree)
    (there : host.root.at? place = some (.directory entries))
    (plain : Files.IsPlain name)
    {fault : PathFault}
    (untold : entryIn host place name = .error fault)
    (isRefusal : fault.isAbsence = false) :
    Files.nameLimit < (Location.pathName (name :: place)).text.utf8ByteSize ∨
      host.reaches (name :: place) = false ∨
        ∃ target, host.root.at? (name :: place) = some (.link target) := by
  by_cases linked : ∃ target, host.root.at? (name :: place) = some (.link target)
  · exact .inr (.inr linked)
  · by_cases long : Files.nameLimit < (Location.pathName (name :: place)).text.utf8ByteSize
    · exact .inl long
    · by_cases stuck : host.reaches (name :: place) = false
      · exact .inr (.inl stuck)
      · rw [entryIn, Host.find, locateIn_eq tree there plain (not_exists.mp linked), if_neg long,
          if_neg stuck] at untold
        cases entry : host.root.at? (name :: place) with
        | none =>
          simp only [entry, Option.isSome_none, Bool.false_eq_true, if_false] at untold
          cases untold
          contradiction
        | some node => simp [entry] at untold

/-- A name under which nothing stands leads to no regular file. -/
theorem lacks_of_missing
    (tree : host.root.IsTree)
    (there : host.root.at? place = some (.directory entries))
    (plain : Files.IsPlain name)
    (missing : host.root.at? (name :: place) = none)
    (short : (Location.pathName (name :: place)).text.utf8ByteSize ≤ Files.nameLimit)
    (reached : host.reaches (name :: place) = true) :
    Lacks host place name := by
  have lost : entryIn host place name = .error .notFound := by
    rw [entryIn, Host.find, locateIn_eq tree there plain (by simp [missing]),
      if_neg (Nat.not_lt.mpr short), if_neg (by simp [reached]), missing]
    rfl
  constructor
  · intro fault failed
    cases lost.symm.trans failed
    rfl
  · simp [lost]

end Entry

/-- Another tree is the same for a search that comes from a place upward to a directory: all that is
in the directory is the same, with the rights to it, and so is what the names of configuration files
lead to where links stand under them. -/
structure Resembles (host other : Host) (place above : Location) : Prop where
  isTree : other.root.IsTree
  inside : other.root.at? above = host.root.at? above
  reached : other.reaches above = host.reaches above
  lists_eq : ∀ location, above <:+ location → other.lists location = host.lists location
  searches_eq : ∀ location, above <:+ location → other.searches location = host.searches location
  reads_eq : ∀ location, above <:+ location → other.reads location = host.reads location
  values_eq : other.room.values = host.room.values
  linked : ∀ between, between <:+ place → above <:+ between → ∀ name, IsFileName name →
    ∀ target, host.root.at? (name :: between) = some (.link target) →
      entryIn other between name = entryIn host between name ∧
        readIn other between name = readIn host between name

namespace Resembles

variable {host other : Host} {place above : Location}

theorem at?_eq (resembles : Resembles host other place above) {location : Location}
    (below : above <:+ location) : other.root.at? location = host.root.at? location := by
  obtain ⟨front, rfl⟩ := below
  rw [FileNode.at?_append, FileNode.at?_append, resembles.inside]

theorem reaches_eq (resembles : Resembles host other place above) {location : Location}
    (below : above <:+ location) : other.reaches location = host.reaches location := by
  induction location with
  | nil => rw [List.suffix_nil.mp below] at resembles; exact resembles.reached
  | cons part rest ih =>
    rcases List.suffix_cons_iff.mp below with rfl | below
    · exact resembles.reached
    · rw [Host.reaches, Host.reaches, resembles.searches_eq rest below, ih below]

theorem entryIn_congr
    (resembles : Resembles host other place above)
    (tree : host.root.IsTree)
    {entries : List (String × FileNode)}
    (there : host.root.at? place = some (.directory entries))
    {between : Location}
    (inside : between <:+ place)
    (below : above <:+ between)
    {name : String}
    (isFileName : IsFileName name) :
    entryIn other between name = entryIn host between name ∧
      readIn other between name = readIn host between name := by
  by_cases linked : ∃ target, host.root.at? (name :: between) = some (.link target)
  · obtain ⟨target, linked⟩ := linked
    exact resembles.linked between inside below name isFileName target linked
  · obtain ⟨others, parent⟩ := FileNode.exists_entries_of_suffix there inside
    have deeper := below.trans (List.suffix_cons name between)
    have same := resembles.at?_eq deeper
    have unlinked := not_exists.mp linked
    have located : other.locate true (Location.pathName (name :: between)).text =
        host.locate true (Location.pathName (name :: between)).text := by
      rw [locateIn_eq tree parent isFileName.isPlain unlinked,
        locateIn_eq resembles.isTree ((resembles.at?_eq below).trans parent) isFileName.isPlain
          (by rwa [same]), same, resembles.reaches_eq deeper]
    -- where the name leads somewhere at all, it leads to the entry itself
    have itself : ∀ location, host.locate true (Location.pathName (name :: between)).text =
        .ok location → location = name :: between := by
      intro location leads
      rw [locateIn_eq tree parent isFileName.isPlain unlinked] at leads
      grind
    simp only [entryIn, Host.find, readIn, Host.readBytes, located]
    split
    · exact ⟨rfl, rfl⟩
    · next location leads =>
      cases itself location leads
      rw [same, resembles.lists_eq _ deeper, resembles.reads_eq _ deeper]
      exact ⟨rfl, rfl⟩

/-- What looking in the directories on the way leads to is the same. -/
theorem candidateIn?_congr
    (resembles : Resembles host other place above)
    (tree : host.root.IsTree)
    {entries : List (String × FileNode)}
    (there : host.root.at? place = some (.directory entries))
    {between : Location}
    (inside : between <:+ place)
    (below : above <:+ between) :
    candidateIn? other between.pathName = candidateIn? host between.pathName := by
  have same := fun name (isFileName : IsFileName name) =>
    resembles.entryIn_congr tree there inside below isFileName
  simp only [entryIn, readIn] at same
  obtain ⟨own, -⟩ := same ownFileName (.inl rfl)
  obtain ⟨project, described⟩ := same projectFileName (.inr rfl)
  simp only [candidateIn?_eq, ConfigFile.isPresent, Host.leadsTo, ConfigFile.table, place_fileIn, own,
    project, described, resembles.values_eq]

/-- A search that is settled comes to the same result. -/
theorem firstCandidate?_congr
    (resembles : Resembles host other place above)
    (tree : host.root.IsTree)
    {entries : List (String × FileNode)}
    (there : host.root.at? place = some (.directory entries))
    (reaches : Reaches host place above)
    (stays : ¬Passed host above) :
    firstCandidate? other (place.tails.map Location.pathName) =
      firstCandidate? host (place.tails.map Location.pathName) := by
  have looked : ∀ between : Location, between <:+ place → above <:+ between →
      candidateIn? other between.pathName = candidateIn? host between.pathName :=
    fun _ inside below => resembles.candidateIn?_congr tree there inside below
  have passed_iff : ∀ between : Location, between <:+ place → above <:+ between →
      (Passed other between ↔ Passed host between) := by
    intro between inside below
    have other_iff := @candidateIn?_eq_iff other between (.ok none)
    rw [looked between inside below] at other_iff
    exact other_iff.symm.trans candidateIn?_eq_iff
  clear resembles there
  induction reaches with
  | here place =>
    have stays' : ¬Passed other place := fun passed =>
      stays ((passed_iff place List.suffix_rfl List.suffix_rfl).mp passed)
    rw [firstCandidate?_of_not_passed stays', firstCandidate?_of_not_passed stays,
      looked place List.suffix_rfl List.suffix_rfl]
  | @up name place above passed reaches ih =>
    have below := reaches.suffix.trans (List.suffix_cons name place)
    have passed' := (passed_iff (name :: place) List.suffix_rfl below).mpr passed
    rw [firstCandidate?_of_passed passed', firstCandidate?_of_passed passed]
    exact ih stays
      (fun between inside => looked between (inside.trans (List.suffix_cons name place)))
      (fun between inside => passed_iff between (inside.trans (List.suffix_cons name place)))

end Resembles

/-! ## The search -/

/-- A search begins in the directory that the start is resolved to. -/
theorem find?_eq
    {host : Host}
    {start : Files.PathName}
    {place : Location}
    (resolved : host.resolve start = .ok place.pathName) :
    find? host start = firstCandidate? host (place.tails.map Location.pathName) := by
  simp only [find?, resolved, directoriesFrom_pathName]

/-- What a search leads to that starts in the directory at a place. -/
structure Searched (host : Host) (start : Files.PathName) (place : Location) : Prop where
  /-- The file is found that the nearest directory with one has. -/
  found_iff : ∀ file, find? host start = .ok (some file) ↔
    ∃ above, Reaches host place above ∧ Chosen host above file
  /-- Nothing is found if no directory has a file. -/
  missing_iff : find? host start = .ok none ↔ ∀ above, above <:+ place → Passed host above
  /-- The search fails where it cannot be told whether a directory has a file. -/
  failed_iff : ∀ stop, find? host start = .error stop ↔
    ∃ above, Reaches host place above ∧ Halts host above stop
  /-- The file system only refuses to tell because of a name that is too long or may not be looked up,
  or because of a link. -/
  untold : ∀ above, above <:+ place → ∀ name, IsFileName name → ∀ fault,
    entryIn host above name = .error fault → fault.isAbsence = false →
      Files.nameLimit < (Location.pathName (name :: above)).text.utf8ByteSize ∨
        host.reaches (name :: above) = false ∨
          ∃ target, host.root.at? (name :: above) = some (.link target)
  /-- What is further up than the directory that settles the search makes no difference to a search
  from the same directory. -/
  settled : ∀ above, Reaches host place above → ¬Passed host above →
    ∀ other, Resembles host other place above → other.resolve start = host.resolve start →
      find? other start = find? host start

/-- A search begins in the directory that the start leads to, and is settled by the nearest directory
that has a configuration file or of which this cannot be told, whatever is further up. -/
theorem search_settled
    {host : Host}
    {start : Files.PathName}
    (tree : host.root.IsTree)
    (absolute : start.isAbsolute = true)
    (tidy : start.IsTidy) :
    (∀ entries, host.find start.text = .ok (.directory entries) →
        ∃ place, host.resolve start = .ok place.pathName ∧
          host.root.at? place = some (.directory entries)) ∧
      ∀ place entries, host.resolve start = .ok place.pathName →
        host.root.at? place = some (.directory entries) → Searched host start place := by
  constructor
  · intro entries found
    obtain ⟨place, located, there⟩ := Host.find_eq_ok_iff.mp found
    exact ⟨place, Host.resolve_of_locate tree absolute tidy located, there⟩
  intro place entries resolved there
  constructor
  case found_iff =>
    intro file
    rw [find?_eq resolved]
    exact firstCandidate?_eq_iff (by simp)
  case missing_iff =>
    rw [find?_eq resolved]
    exact firstCandidate?_eq_none_iff
  case failed_iff =>
    intro stop
    rw [find?_eq resolved]
    exact firstCandidate?_eq_iff (by simp)
  case untold =>
    intro above higher name isFileName fault refused isRefusal
    obtain ⟨others, parent⟩ := FileNode.exists_entries_of_suffix there higher
    exact linked_of_untold tree parent isFileName.isPlain refused isRefusal
  case settled =>
    intro above reaches stays other resembles same
    rw [find?_eq (same.trans resolved), find?_eq resolved]
    exact resembles.firstCandidate?_congr tree there reaches stays

/-! ## Searches that something elsewhere makes a difference to -/

/-- A project whose description is a link out of its directory. -/
def linkedProject (description : List UInt8) : Host :=
  FileNode.host (.directory
    [("a", .directory [(projectFileName, .link "../shared.toml")]), ("shared.toml", .file description)])

section LinkedProject

variable (description : List UInt8)

theorem isTree_linkedProject : (linkedProject description).root.IsTree := ⟨rfl, rfl⟩

theorem resolve_linkedProject :
    (linkedProject description).resolve ⟨.slash, ["a"]⟩ = .ok (Location.pathName ["a"]) :=
  Host.resolve_entry rfl rfl (by decide) rfl fun _ linked => nomatch linked

theorem locate_linkedProject :
    (linkedProject description).locate true (Location.pathName [projectFileName, "a"]).text =
      .ok ["shared.toml"] := by
  have target_eq : Files.partsOf "../shared.toml" = ["..", "shared.toml"] := by decide
  have start_eq : Host.linkStart "../shared.toml" ["a"] = ["a"] := by decide
  have unlinked : ∀ target, FileNode.file description ≠ .link target := by simp
  have parts_eq : (Location.pathName [projectFileName, "a"]).parts = ["a", projectFileName] := rfl
  rw [Host.locate_text (isTree_linkedProject description) rfl (by decide) (by decide) (by decide),
    parts_eq]
  calc (linkedProject description).walk true (39 + 1) [] ["a", projectFileName]
    _ = (linkedProject description).walk true (39 + 1) ["a"] [projectFileName] :=
      Host.walk_enter (by decide) rfl (by decide) rfl (fun _ linked => nomatch linked)
    _ = (linkedProject description).walk true 39 (Host.linkStart "../shared.toml" ["a"])
        (Files.partsOf "../shared.toml" ++ []) :=
      Host.walk_follow (by decide) rfl (by decide) rfl (.inl rfl)
    _ = (linkedProject description).walk true 39 ["a"] ["..", "shared.toml"] := by
      rw [target_eq, start_eq, List.append_nil]
    _ = (linkedProject description).walk true 39 [] ["shared.toml"] := Host.walk_up rfl rfl
    _ = (linkedProject description).walk true 39 ["shared.toml"] [] :=
      Host.walk_enter (by decide) rfl (by decide) rfl unlinked
    _ = .ok ["shared.toml"] := by rw [Host.walk]

theorem readIn_linkedProject :
    readIn (linkedProject description) ["a"] projectFileName = .ok description := by
  rw [readIn, Host.readBytes, locate_linkedProject]
  rfl

theorem lacks_linkedProject : Lacks (linkedProject description) ["a"] ownFileName :=
  lacks_of_missing (isTree_linkedProject description) rfl (by decide) rfl (by decide) rfl

end LinkedProject

/-- The search in such a project. -/
theorem search_settled_in_linked_project :
    (linkedProject []).root.IsTree ∧
      ∃ place, (linkedProject []).resolve ⟨.slash, ["a"]⟩ = .ok place.pathName ∧
        Searched (linkedProject []) ⟨.slash, ["a"]⟩ place := by
  have found : (linkedProject []).find (Files.PathName.text ⟨.slash, ["a"]⟩) =
      .ok (.directory [(projectFileName, .link "../shared.toml")]) := by
    rw [Files.PathName.text_entry]
    exact Host.find_entry rfl rfl (by decide) rfl fun _ linked => nomatch linked
  obtain ⟨starts, searched⟩ :=
    @search_settled _ ⟨.slash, ["a"]⟩ (isTree_linkedProject []) rfl (by decide)
  obtain ⟨place, resolved, there⟩ := starts _ found
  exact ⟨isTree_linkedProject [], place, resolved, searched place _ resolved there⟩

/-- A part that is too long is refused. -/
theorem walk_of_overlong
    {host : Host}
    {location : Location}
    {entries : List (String × FileNode)}
    {part : String}
    (above : host.root.at? location = some (.directory entries))
    (searched : host.searches location = true)
    (long : Files.partLimit < part.utf8ByteSize)
    (links : Nat)
    (rest : List String) :
    host.walk true links location (part :: rest) = .error .nameTooLong := by
  have ne_of_short : ∀ short : String, short.utf8ByteSize ≤ Files.partLimit → part ≠ short := by
    rintro short bounded rfl
    omega
  rw [Host.walk, above]
  simp [Host.admits, searched, ne_of_short "" (by decide), ne_of_short "." (by decide),
    ne_of_short ".." (by decide), long]

/-- A part of a name that is too long. -/
def overlongPart : String := String.ofList (List.replicate 256 'x')

/-- A directory with a link to something of a name that is too long. -/
def overlongLink : Host := FileNode.host (.directory [(ownFileName, .link overlongPart)])

theorem notMem_overlongPart {char : Char} (other : char ≠ 'x') : char ∉ overlongPart.toList := by
  -- for any count, so that the part is not spelled out
  suffices apart : ∀ count, char ∉ (String.ofList (List.replicate count 'x')).toList from apart 256
  intro count
  rw [String.toList_ofList]
  exact fun inside => other (List.eq_of_mem_replicate inside)

theorem isTree_overlongLink : overlongLink.root.IsTree where
  isProper := by
    have clean := (FileNode.isProper_link_iff _).mpr (@notMem_overlongPart '\x00' (by decide))
    have plain : Files.IsPlain ownFileName := by decide
    rw [overlongLink, FileNode.host, FileNode.isProper, FileNode.areProper, FileNode.areProper, clean]
    simp [plain, Table.keys]
  isDirectory := rfl

theorem entryIn_overlongLink : entryIn overlongLink [] ownFileName = .error .nameTooLong := by
  have whole := Files.partsOf_of_notMem (@notMem_overlongPart '/' (by decide))
  have long : Files.partLimit < overlongPart.utf8ByteSize := by decide +kernel
  have link : overlongLink.root.at? [ownFileName] = some (.link overlongPart) := rfl
  have walked : overlongLink.walk true (39 + 1) [] [ownFileName] = .error .nameTooLong := by
    rw [Host.walk_follow (by decide) rfl (by decide) link (.inl rfl), whole, Host.linkStart, ite_self]
    exact walk_of_overlong rfl rfl long 39 []
  have parts_eq : (Location.pathName [ownFileName]).parts = [ownFileName] := rfl
  rw [entryIn, Host.find, Host.locate_text isTree_overlongLink rfl (by decide) (by decide) (by decide),
    parts_eq, Files.linkLimit, walked]

/-- A directory that may not be searched. -/
def lockedDirectory : Host :=
  { FileNode.host (.directory [("a", .directory [])]) with searches := fun place => place ≠ ["a"] }

theorem entryIn_lockedDirectory : entryIn lockedDirectory ["a"] ownFileName = .error .notPermitted := by
  have tree : lockedDirectory.root.IsTree := ⟨rfl, rfl⟩
  have missing : lockedDirectory.root.at? [ownFileName, "a"] = none := rfl
  rw [entryIn, Host.find, locateIn_eq tree rfl (by decide) (by simp [missing]), if_neg (by decide),
    if_pos (by decide)]

/-- Two directories, and a link to one of them. -/
def linkedStart (target : String) : Host :=
  FileNode.host (.directory
    [("l", .link target), ("own", .directory [(ownFileName, .file [])]), ("other", .directory [])])

theorem resolve_linkedStart
    {target : String}
    (plain : Files.IsPlain target)
    (tree : (linkedStart target).root.IsTree)
    {entries : List (String × FileNode)}
    (there : (linkedStart target).root.at? [target] = some (.directory entries)) :
    (linkedStart target).resolve ⟨.slash, ["l"]⟩ = .ok (Location.pathName [target]) := by
  have whole := Files.partsOf_of_notMem plain.isWhole
  have link : (linkedStart target).root.at? ["l"] = some (.link target) := rfl
  have walked : (linkedStart target).walk true (39 + 1) [] ["l"] = .ok [target] := by
    rw [Host.walk_follow (by decide) rfl (by decide) link (.inl rfl), whole, Host.linkStart, ite_self,
      List.append_nil, Host.walk_enter (.of_isPlain plain) rfl plain.isShort there (by simp), Host.walk]
  refine Host.resolve_of_locate tree rfl (by decide) ?_
  rwa [Host.locate_text tree rfl (by decide) (by decide) (by decide), Files.linkLimit]

/-- What stands elsewhere makes a difference through links, and the file system may refuse to tell.  It
does not follow a link to a name that is too long, or look anything up in a directory that may not be
searched, though no project is described anywhere; the description of a project may be a link to a file
further up, of which it depends whether the project has a configuration file; and the start may be a
link further up, of which it depends where the search begins. -/
theorem search_follows_links :
    ((overlongLink.root.at? [projectFileName] = none ∧
        find? overlongLink ⟨.slash, []⟩ =
          .error (.failure (.of "OSError" ["[Errno 36] File name too long: '/.svglintrc.toml'"]))) ∧
      find? lockedDirectory ⟨.slash, ["a"]⟩ =
        .error (.failure
          (.of "PermissionError" ["[Errno 13] Permission denied: '/a/.svglintrc.toml'"]))) ∧
      ((linkedProject "[tool.svglint]".toUTF8.toList).root.at? ["a"] =
          (linkedProject "[".toUTF8.toList).root.at? ["a"] ∧
        find? (linkedProject "[tool.svglint]".toUTF8.toList) ⟨.slash, ["a"]⟩ =
          .ok (some (fileIn ⟨.slash, ["a"]⟩ projectFileName)) ∧
        ∃ refusal, find? (linkedProject "[".toUTF8.toList) ⟨.slash, ["a"]⟩ =
          .error ((fileIn ⟨.slash, ["a"]⟩ projectFileName).stop (.invalidToml refusal))) ∧
      (linkedStart "own").root.at? ["own"] = (linkedStart "other").root.at? ["own"] ∧
        find? (linkedStart "own") ⟨.slash, ["l"]⟩ = .ok (some (fileIn ⟨.slash, ["own"]⟩ ownFileName)) ∧
        find? (linkedStart "other") ⟨.slash, ["l"]⟩ = .ok none := by
  refine ⟨⟨⟨rfl, ?_⟩, ?_⟩, ⟨rfl, ?_, ?_⟩, rfl, ?_, ?_⟩
  · have failure_eq : PathFault.nameTooLong.failure (fileIn (Location.pathName []) ownFileName).text =
        (.of "OSError" ["[Errno 36] File name too long: '/.svglintrc.toml'"]) := by decide +kernel
    have halts := Halts.untold ownFileName _ (.inl rfl) entryIn_overlongLink rfl
    rw [failure_eq] at halts
    rw [@find?_eq overlongLink _ [] (Host.resolve_root rfl)]
    exact (firstCandidate?_eq_iff (by simp)).mpr ⟨[], .here [], halts⟩
  · have failure_eq :
        PathFault.notPermitted.failure (fileIn (Location.pathName ["a"]) ownFileName).text =
        (.of "PermissionError" ["[Errno 13] Permission denied: '/a/.svglintrc.toml'"]) := by
      decide +kernel
    have halts := Halts.untold ownFileName _ (.inl rfl) entryIn_lockedDirectory rfl
    rw [failure_eq] at halts
    have resolved : lockedDirectory.resolve ⟨.slash, ["a"]⟩ = .ok (Location.pathName ["a"]) :=
      Host.resolve_entry rfl rfl (by decide) rfl fun _ linked => nomatch linked
    rw [find?_eq resolved]
    exact (firstCandidate?_eq_iff (by simp)).mpr ⟨["a"], .here ["a"], halts⟩
  · have decoded : Text.decode "[tool.svglint]".toUTF8.toList = .ok "[tool.svglint]".toList := by
      decide +kernel
    have chosen := Chosen.project _ _ [("tool", .table [("svglint", .table [])])]
      (lacks_linkedProject _) (readIn_linkedProject _) decoded rfl ⟨_, rfl, rfl⟩
    rw [find?_eq (resolve_linkedProject _)]
    exact (firstCandidate?_eq_iff (by simp)).mpr ⟨["a"], .here ["a"], chosen⟩
  · have decoded : Text.decode "[".toUTF8.toList = .ok "[".toList := by decide +kernel
    obtain ⟨refusal, refused, fewDigits, shallow⟩ : ∃ refusal,
        Toml.read (linkedProject "[".toUTF8.toList).room.values "[".toList = .error refusal ∧
          (∀ count, refusal.cause ≠ .tooManyDigits count) ∧ refusal.cause ≠ .tooDeep :=
      ⟨_, rfl, by simp, by simp⟩
    have halts := Halts.unread _ _ (lacks_linkedProject _) (readIn_linkedProject _)
      (.error _ refusal decoded refused fewDigits shallow)
    rw [find?_eq (resolve_linkedProject _)]
    exact ⟨refusal, (firstCandidate?_eq_iff (by simp)).mpr ⟨["a"], .here ["a"], halts⟩⟩
  · have tree : (linkedStart "own").root.IsTree := ⟨rfl, rfl⟩
    have there : (linkedStart "own").root.at? [ownFileName, "own"] = some (.file []) := rfl
    have regular : entryIn (linkedStart "own") ["own"] ownFileName = .ok (.file []) := by
      rw [entryIn, Host.find, locateIn_eq tree rfl (by decide) (by simp [there]), if_neg (by decide),
        if_neg (by decide), there]
      rfl
    rw [find?_eq (resolve_linkedStart (by decide) tree rfl)]
    exact (firstCandidate?_eq_iff (by simp)).mpr ⟨["own"], .here ["own"], .own [] regular⟩
  · have tree : (linkedStart "other").root.IsTree := ⟨rfl, rfl⟩
    have inside : Passed (linkedStart "other") ["other"] :=
      .vacant (lacks_of_missing tree rfl (by decide) rfl (by decide) rfl)
        (lacks_of_missing tree rfl (by decide) rfl (by decide) rfl)
    have top : Passed (linkedStart "other") [] :=
      .vacant (lacks_of_missing tree rfl (by decide) rfl (by decide) rfl)
        (lacks_of_missing tree rfl (by decide) rfl (by decide) rfl)
    rw [find?_eq (resolve_linkedStart (by decide) tree rfl), firstCandidate?_eq_none_iff]
    intro above higher
    rcases List.suffix_cons_iff.mp higher with rfl | higher
    · exact inside
    · exact List.suffix_nil.mp higher ▸ top

end Config
end MarkupLint
