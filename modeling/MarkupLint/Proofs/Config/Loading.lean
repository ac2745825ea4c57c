import MarkupLint.CommandLine.Run
import MarkupLint.Proofs.Files.Finding
import MarkupLint.Proofs.Traversal

/-!
# What loading a configuration leads to

Loading a configuration leads to settings, or to an error of the configuration that names the file,
or to a failure that is none.  A file escapes the errors of the configuration in four ways only: it is
no UTF-8, it has a number with too many digits or values that are too deep inside each other, or the
number of seconds in it is too large.
-/

namespace MarkupLint
namespace Config

/-- An integer is a number of seconds that is too large for a binary number. -/
def IsTooLong (seconds : Int) : Prop :=
  0 < seconds ∧ ∃ isNegative, Binary64.ofInt seconds = .infinite isNegative

theorem readTimeout_eq_error_iff {value : Value} {failure : Failure} :
    readTimeout value = .error failure ↔
      failure = integerTooLarge ∧ ∃ seconds, value = .integer seconds ∧ IsTooLong seconds := by
  constructor
  · intro failed
    unfold readTimeout at failed
    split at failed
    · contradiction
    · next seconds =>
      split at failed
      · contradiction
      · next positive =>
        split at failed
        · next isNegative infinite =>
          cases failed
          exact ⟨rfl, seconds, rfl, by omega, isNegative, infinite⟩
        · contradiction
    · split at failed <;> contradiction
    · contradiction
  · rintro ⟨rfl, seconds, rfl, positive, isNegative, infinite⟩
    simp only [readTimeout, if_neg (show ¬seconds ≤ 0 by omega), infinite]

namespace Settings

variable {entries : Table Value} {path? : Option String}

/-- What a table of settings leads to knows the file that it is in. -/
theorem path?_of_ofValue
    {settings : Settings}
    (read : ofValue (.table entries) path? = .ok settings) :
    settings.path? = path? := by
  simp only [ofValue] at read
  split at read
  · contradiction
  · split at read
    · cases read
      rfl
    · contradiction

theorem path?_of_ofValue_error
    {error : Error}
    (refused : ofValue (.table entries) path? = .error (.error error)) :
    error.path? = path? := by
  simp only [ofValue] at refused
  split at refused
  · cases refused
  · split at refused
    · contradiction
    · cases refused
      rfl

/-- The only failure that a table of settings leads to is a number of seconds that is too large. -/
theorem ofValue_eq_failure_iff {failure : Failure} :
    ofValue (.table entries) path? = .error (.failure failure) ↔
      failure = integerTooLarge ∧
        ∃ seconds, (mergeDefaults entries).value? "timeout" = some (.integer seconds) ∧
          IsTooLong seconds := by
  have timeout_iff := @readTimeout_eq_error_iff
    (((mergeDefaults entries).value? "timeout").getD .null) failure
  have part_iff : (∃ seconds, ((mergeDefaults entries).value? "timeout").getD .null =
        .integer seconds ∧ IsTooLong seconds) ↔
      ∃ seconds, (mergeDefaults entries).value? "timeout" = some (.integer seconds) ∧
        IsTooLong seconds := by
    cases (mergeDefaults entries).value? "timeout" <;> simp
  rw [← part_iff, ← timeout_iff]
  simp only [ofValue]
  split
  · next other failed => simp [failed]
  · next timeout known =>
    rw [known]
    split <;> simp

end Settings

/-- Bytes cannot be read as a table with room for so many values inside each other, and the failure is
no error of the configuration. -/
inductive Garbled (depth : Nat) (bytes : List UInt8) : Failure → Prop where
  | undecodable
      (fault : Text.DecodingFault)
      (refused : Text.decode bytes = .error fault) :
      Garbled depth bytes (ConfigFile.undecodable fault)
  | tooManyDigits
      (text : List Char)
      (refusal : Toml.Refusal)
      (count : Nat)
      (decoded : Text.decode bytes = .ok text)
      (refused : Toml.read depth text = .error refusal)
      (cause_eq : refusal.cause = .tooManyDigits count) :
      Garbled depth bytes (.ofValue (Text.tooManyDigits count))
  | tooDeep
      (text : List Char)
      (refusal : Toml.Refusal)
      (decoded : Text.decode bytes = .ok text)
      (refused : Toml.read depth text = .error refusal)
      (cause_eq : refusal.cause = .tooDeep) :
      Garbled depth bytes .tooDeep

namespace ConfigFile

variable {host : Files.Host} {file : ConfigFile} {depth : Nat} {bytes : List UInt8}

/-- A file that is present has bytes, unless it may not be read. -/
theorem readBytes_cases (present : file.isPresent host = .ok true) :
    (∃ bytes, host.readBytes file.place.text = .ok bytes) ∨
      host.readBytes file.place.text = .error .notPermitted := by
  unfold isPresent Files.Host.leadsTo Files.Host.find at present
  unfold Files.Host.readBytes
  split at present
  · next node found =>
    split at found
    · contradiction
    · next location located =>
      split at found
      · next other there =>
        cases found
        cases node with
        | file bytes =>
          simp only [there]
          by_cases readable : host.reads location = true
          · exact .inl ⟨bytes, if_pos readable⟩
          · exact .inr (if_neg readable)
        | _ => simp [Files.FileNode.isFile] at present
      · contradiction
  · split at present <;> simp at present

/-- Why a text is refused is an error of the configuration, unless it has a number with too many digits
or values that are too deep inside each other. -/
inductive Refused (file : ConfigFile) (refusal : Toml.Refusal) : Stop → Prop where
  | tooManyDigits
      (count : Nat)
      (cause_eq : refusal.cause = .tooManyDigits count) :
      Refused file refusal (.failure (.ofValue (Text.tooManyDigits count)))
  | tooDeep (cause_eq : refusal.cause = .tooDeep) : Refused file refusal (.failure .tooDeep)
  | invalid
      (fewDigits : ∀ count, refusal.cause ≠ .tooManyDigits count)
      (shallow : refusal.cause ≠ .tooDeep) :
      Refused file refusal (file.stop (.invalidToml refusal))

theorem refused (file : ConfigFile) (refusal : Toml.Refusal) :
    file.Refused refusal (file.refuse refusal) := by
  unfold refuse
  split
  · next count same => exact .tooManyDigits count same
  · next same => exact .tooDeep same
  · next fewDigits shallow => exact .invalid fewDigits shallow

/-- A file with bytes has a table, is an error of the configuration, or is garbled. -/
inductive Tabled (depth : Nat) (file : ConfigFile) (bytes : List UInt8) :
    Except Stop (Table Value) → Prop where
  | ok
      (text : List Char)
      (table : Table Value)
      (decoded : Text.decode bytes = .ok text)
      (read : Toml.read depth text = .ok table) :
      Tabled depth file bytes (.ok table)
  | error
      (text : List Char)
      (refusal : Toml.Refusal)
      (decoded : Text.decode bytes = .ok text)
      (refused : Toml.read depth text = .error refusal)
      (fewDigits : ∀ count, refusal.cause ≠ .tooManyDigits count)
      (shallow : refusal.cause ≠ .tooDeep) :
      Tabled depth file bytes (.error (file.stop (.invalidToml refusal)))
  | failure
      (failure : Failure)
      (garbled : Garbled depth bytes failure) :
      Tabled depth file bytes (.error (.failure failure))

theorem tabled (read : host.readBytes file.place.text = .ok bytes) :
    file.Tabled host.room.values bytes (file.table host) := by
  cases decoded : Text.decode bytes with
  | error fault =>
    simp only [table, read, decoded]
    exact .failure _ (.undecodable fault decoded)
  | ok text =>
    cases tabled : Toml.read host.room.values text with
    | ok entries =>
      simp only [table, read, decoded, tabled, Except.mapError]
      exact .ok text entries decoded tabled
    | error refusal =>
      simp only [table, read, decoded, tabled, Except.mapError]
      have why := file.refused refusal
      generalize file.refuse refusal = stop at why ⊢
      cases why with
      | tooManyDigits count cause_eq =>
        exact .failure _ (.tooManyDigits text refusal count decoded tabled cause_eq)
      | tooDeep cause_eq => exact .failure _ (.tooDeep text refusal decoded tabled cause_eq)
      | invalid fewDigits shallow => exact .error text refusal decoded tabled fewDigits shallow

/-- A file that may not be read is an error of the configuration. -/
theorem table_of_notPermitted
    (unread : host.readBytes file.place.text = .error .notPermitted) :
    file.table host =
      .error (file.stop (.unreadable (Files.PathFault.notPermitted.message file.text))) := by
  simp only [table, unread]

/-- The settings in the table of a file, if they are a table. -/
def settingsTable? (file : ConfigFile) (table : Table Value) : Option (Table Value) :=
  if file.isProject then
    match sectionOf table with
    | .table entries => some entries
    | _ => none
  else some table

/-- The bytes of a file lead to a failure that is no error of the configuration: they are garbled, or
the number of seconds in the settings is too large. -/
inductive Escapes (depth : Nat) (file : ConfigFile) (bytes : List UInt8) : Failure → Prop where
  | garbled
      (failure : Failure)
      (garbled : Garbled depth bytes failure) :
      Escapes depth file bytes failure
  | tooLong
      (text : List Char)
      (table entries : Table Value)
      (seconds : Int)
      (decoded : Text.decode bytes = .ok text)
      (read : Toml.read depth text = .ok table)
      (settings : file.settingsTable? table = some entries)
      (timeout : (mergeDefaults entries).value? "timeout" = some (.integer seconds))
      (isTooLong : IsTooLong seconds) :
      Escapes depth file bytes integerTooLarge

/-- A file with bytes leads to settings or to an error of the configuration, both of which know the
file, unless it escapes. -/
inductive Settled (depth : Nat) (file : ConfigFile) (bytes : List UInt8) :
    Except Stop Settings → Prop where
  | ok
      (settings : Settings)
      (path_eq : settings.path? = some file.text)
      (sound : ∀ failure, ¬file.Escapes depth bytes failure) :
      Settled depth file bytes (.ok settings)
  | error
      (error : Error)
      (path_eq : error.path? = some file.text)
      (sound : ∀ failure, ¬file.Escapes depth bytes failure) :
      Settled depth file bytes (.error (.error error))
  | failure
      (failure : Failure)
      (escapes : file.Escapes depth bytes failure) :
      Settled depth file bytes (.error (.failure failure))

theorem settingsIn_of_table
    {table : Table Value}
    (known : file.table host = .ok table) :
    settingsIn host file =
      match file.settingsTable? table with
      | some entries => Settings.ofValue (.table entries) (some file.text)
      | none => .error (file.stop .sectionNotTable) := by
  simp only [settingsIn, known, settingsTable?, bind, Except.bind]
  split
  · split <;> simp_all [throw, throwThe, MonadExceptOf.throw]
  · rfl

/-- With a table, only the number of seconds can escape. -/
theorem escapes_iff_of_read
    {text : List Char}
    {table : Table Value}
    {failure : Failure}
    (decoded : Text.decode bytes = .ok text)
    (read : Toml.read depth text = .ok table) :
    file.Escapes depth bytes failure ↔ failure = integerTooLarge ∧
      ∃ entries seconds, file.settingsTable? table = some entries ∧
        (mergeDefaults entries).value? "timeout" = some (.integer seconds) ∧ IsTooLong seconds := by
  have same : ∀ {other : List Char}, Text.decode bytes = .ok other → other = text :=
    fun again => (Except.ok.inj (decoded.symm.trans again)).symm
  constructor
  · rintro (⟨_, garbled⟩ |
      ⟨other, otherTable, entries, seconds, again, known, settings, timeout, isTooLong⟩)
    · cases garbled with
      | undecodable fault undecoded => simp [decoded] at undecoded
      | tooManyDigits other refusal count again refused
      | tooDeep other refusal again refused => simp [same again, read] at refused
    · rw [same again, read] at known
      cases known
      exact ⟨rfl, entries, seconds, settings, timeout, isTooLong⟩
  · rintro ⟨rfl, entries, seconds, settings, timeout, isTooLong⟩
    exact .tooLong text table entries seconds decoded read settings timeout isTooLong

/-- A text that is refused as no table does not escape. -/
theorem not_escapes_of_refused
    {text : List Char}
    {refusal : Toml.Refusal}
    (decoded : Text.decode bytes = .ok text)
    (refused : Toml.read depth text = .error refusal)
    (fewDigits : ∀ count, refusal.cause ≠ .tooManyDigits count)
    (shallow : refusal.cause ≠ .tooDeep)
    (failure : Failure) :
    ¬file.Escapes depth bytes failure := by
  have same : ∀ {other : List Char}, Text.decode bytes = .ok other → other = text :=
    fun again => (Except.ok.inj (decoded.symm.trans again)).symm
  have alike : ∀ {other : Toml.Refusal}, Toml.read depth text = .error other → other = refusal :=
    fun again => (Except.error.inj (refused.symm.trans again)).symm
  rintro (⟨_, garbled⟩ | ⟨other, table, entries, seconds, again, known, -⟩)
  · cases garbled with
    | undecodable fault undecoded => simp [decoded] at undecoded
    | tooManyDigits other otherRefusal count again why cause_eq =>
      exact fewDigits count (alike (same again ▸ why) ▸ cause_eq)
    | tooDeep other otherRefusal again why cause_eq =>
      exact shallow (alike (same again ▸ why) ▸ cause_eq)
  · simp [same again, refused] at known

theorem settled (read : host.readBytes file.place.text = .ok bytes) :
    file.Settled host.room.values bytes (settingsIn host file) := by
  have tabled := tabled read
  generalize known : file.table host = tables at tabled
  have refused : ∀ stop, tables = .error stop → settingsIn host file = .error stop := by
    rintro stop rfl
    simp only [settingsIn, known, bind, Except.bind]
  cases tabled with
  | failure failure garbled =>
    rw [refused _ rfl]
    exact .failure failure (.garbled failure garbled)
  | error text refusal decoded refuses fewDigits shallow =>
    rw [refused _ rfl]
    exact .error _ rfl (not_escapes_of_refused decoded refuses fewDigits shallow)
  | ok text table decoded parsed =>
    rw [settingsIn_of_table known]
    cases settings : file.settingsTable? table with
    | none =>
      refine .error _ rfl fun failure escapes => ?_
      obtain ⟨-, entries, seconds, some, -⟩ := (escapes_iff_of_read decoded parsed).mp escapes
      simp [settings] at some
    | some entries =>
      simp only
      have escapes_iff : ∀ failure, file.Escapes host.room.values bytes failure ↔
          Settings.ofValue (.table entries) (some file.text) = .error (.failure failure) := by
        intro failure
        rw [escapes_iff_of_read decoded parsed, Settings.ofValue_eq_failure_iff, settings]
        simp
      cases leads : Settings.ofValue (.table entries) (some file.text) with
      | ok found =>
        refine .ok found (Settings.path?_of_ofValue leads) fun failure escapes => ?_
        simp [(escapes_iff failure).mp escapes] at leads
      | error stop =>
        cases stop with
        | error error =>
          refine .error error (Settings.path?_of_ofValue_error leads) fun failure escapes => ?_
          simp [(escapes_iff failure).mp escapes] at leads
        | failure failure => exact .failure failure ((escapes_iff failure).mpr leads)

end ConfigFile

/-- The file with a name in a directory. -/
def fileIn (directory : Files.PathName) (name : String) : ConfigFile :=
  .atPlace (directory.join ⟨.relative, [name]⟩)

/-- The name is that of a configuration file. -/
def IsFileName (name : String) : Prop := name = ownFileName ∨ name = projectFileName

/-- What looking for a configuration file in a directory leads to: a file that is present, none, or a
stop, because the presence of a file cannot be told or the description of a project may not be read or
cannot be. -/
inductive Candidate (host : Files.Host) (directory : Files.PathName) :
    Except Stop (Option ConfigFile) → Prop where
  | found
      (name : String)
      (isFileName : IsFileName name)
      (present : (fileIn directory name).isPresent host = .ok true) :
      Candidate host directory (.ok (some (fileIn directory name)))
  | missing : Candidate host directory (.ok none)
  | obstructed
      (name : String)
      (isFileName : IsFileName name)
      (failure : Failure)
      (failed : (fileIn directory name).isPresent host = .error failure) :
      Candidate host directory (.error (.failure failure))
  | unread
      (bytes : List UInt8)
      (stop : Stop)
      (read : host.readBytes (fileIn directory projectFileName).place.text = .ok bytes)
      (tabled : (fileIn directory projectFileName).Tabled host.room.values bytes (.error stop)) :
      Candidate host directory (.error stop)
  | forbidden :
      Candidate host directory (.error ((fileIn directory projectFileName).stop (.unreadable
        (Files.PathFault.notPermitted.message (fileIn directory projectFileName).text))))

/-- The steps of looking for a configuration file in a directory. -/
theorem candidateIn?_eq (host : Files.Host) (directory : Files.PathName) :
    candidateIn? host directory =
      match (fileIn directory ownFileName).isPresent host with
      | .error failure => .error (.failure failure)
      | .ok true => .ok (some (fileIn directory ownFileName))
      | .ok false =>
        match (fileIn directory projectFileName).isPresent host with
        | .error failure => .error (.failure failure)
        | .ok false => .ok none
        | .ok true =>
          match (fileIn directory projectFileName).table host with
          | .error stop => .error stop
          | .ok project =>
            .ok (if hasSection project then some (fileIn directory projectFileName) else none) := by
  simp only [candidateIn?, bind, Except.bind, Except.mapError, fileIn]
  cases ((ConfigFile.atPlace (directory.join ⟨.relative, [ownFileName]⟩)).isPresent host) with
  | error failure => rfl
  | ok present =>
    cases present with
    | true => rfl
    | false =>
      cases ((ConfigFile.atPlace (directory.join ⟨.relative, [projectFileName]⟩)).isPresent host) with
      | error failure => rfl
      | ok present =>
        cases present with
        | false => rfl
        | true =>
          cases (ConfigFile.atPlace (directory.join ⟨.relative, [projectFileName]⟩)).table host with
          | error stop => rfl
          | ok project => exact (apply_ite Except.ok (hasSection project = true) _ _).symm

theorem candidate (host : Files.Host) (directory : Files.PathName) :
    Candidate host directory (candidateIn? host directory) := by
  rw [candidateIn?_eq]
  split
  · next failure failed => exact .obstructed _ (.inl rfl) failure failed
  · next present => exact .found _ (.inl rfl) present
  · split
    · next failure failed => exact .obstructed _ (.inr rfl) failure failed
    · exact .missing
    · next present =>
      split
      · next stop refused =>
        rcases ConfigFile.readBytes_cases present with ⟨bytes, read⟩ | unread
        · exact .unread bytes stop read (refused ▸ ConfigFile.tabled read)
        · rw [ConfigFile.table_of_notPermitted unread] at refused
          cases refused
          exact .forbidden
      · split
        · exact .found _ (.inr rfl) present
        · exact .missing

/-- The search ends in one of the directories, or nothing is found in any of them. -/
theorem firstCandidate?_cases (host : Files.Host) (directories : List Files.PathName) :
    firstCandidate? host directories = .ok none ∨
      ∃ directory ∈ directories, Candidate host directory (firstCandidate? host directories) := by
  fun_induction firstCandidate? host directories with
  | case1 => exact .inl rfl
  | case2 directory rest stop looked =>
    exact .inr ⟨directory, List.mem_cons_self, looked ▸ candidate host directory⟩
  | case3 directory rest file looked =>
    exact .inr ⟨directory, List.mem_cons_self, looked ▸ candidate host directory⟩
  | case4 directory rest looked ih =>
    refine ih.imp id ?_
    rintro ⟨other, known, settles⟩
    exact ⟨other, List.mem_cons_of_mem _ known, settles⟩

/-- A file may be loaded in a directory: it is named, or it is looked for from the directory upward. -/
inductive Considered (host : Files.Host) (directory : Files.PathName) :
    Option Files.PathName → ConfigFile → Prop where
  | named (name : Files.PathName) :
      Considered host directory (some name) ⟨name, directory.join name⟩
  | met
      (resolved place : Files.PathName)
      (name : String)
      (resolves : host.resolve directory = .ok resolved)
      (upward : place ∈ directoriesFrom resolved resolved.parts.length)
      (isFileName : IsFileName name) :
      Considered host directory none (fileIn place name)

/-- The file system stops the search: the presence of a file cannot be told, or the directory cannot be
resolved. -/
inductive Obstructed (host : Files.Host) (directory : Files.PathName) :
    Option Files.PathName → Failure → Prop where
  | presence
      (name? : Option Files.PathName)
      (file : ConfigFile)
      (failure : Failure)
      (considered : Considered host directory name? file)
      (failed : file.isPresent host = .error failure) :
      Obstructed host directory name? failure
  | directory
      (failure : Failure)
      (unresolved : host.resolve directory = .error failure) :
      Obstructed host directory none failure

/-- What loading a configuration leads to. -/
inductive Loaded (host : Files.Host) (directory : Files.PathName) (name? : Option Files.PathName) :
    Except Stop Settings → Prop where
  | standard (unnamed : name? = none) : Loaded host directory name? (.ok .standard)
  | absent
      (file : ConfigFile)
      (considered : Considered host directory name? file) :
      Loaded host directory name? (.error (file.stop .fileNotFound))
  | settled
      (file : ConfigFile)
      (bytes : List UInt8)
      (result : Except Stop Settings)
      (considered : Considered host directory name? file)
      (read : host.readBytes file.place.text = .ok bytes)
      (settled : file.Settled host.room.values bytes result) :
      Loaded host directory name? result
  | unread
      (file : ConfigFile)
      (bytes : List UInt8)
      (stop : Stop)
      (considered : Considered host directory name? file)
      (read : host.readBytes file.place.text = .ok bytes)
      (tabled : file.Tabled host.room.values bytes (.error stop)) :
      Loaded host directory name? (.error stop)
  | forbidden
      (file : ConfigFile)
      (considered : Considered host directory name? file) :
      Loaded host directory name?
        (.error (file.stop (.unreadable (Files.PathFault.notPermitted.message file.text))))
  | obstructed
      (failure : Failure)
      (obstructed : Obstructed host directory name? failure) :
      Loaded host directory name? (.error (.failure failure))

theorem loaded
    (host : Files.Host)
    (directory : Files.PathName)
    (name? : Option Files.PathName) :
    Loaded host directory name? (load host directory name?).result := by
  have present_cases : ∀ file, Considered host directory name? file →
      file.isPresent host = .ok true → Loaded host directory name? (settingsIn host file) := by
    intro file considered present
    rcases ConfigFile.readBytes_cases present with ⟨bytes, read⟩ | unread
    · exact .settled file bytes _ considered read (ConfigFile.settled read)
    · rw [show settingsIn host file = .error (file.stop (.unreadable
          (Files.PathFault.notPermitted.message file.text))) by
        simp only [settingsIn, ConfigFile.table_of_notPermitted unread, bind, Except.bind]]
      exact .forbidden file considered
  cases name? with
  | some name =>
    unfold load
    dsimp only
    split
    · next failure failed => exact .obstructed failure (.presence _ _ failure (.named name) failed)
    · exact .absent _ (.named name)
    · next present => exact present_cases _ (.named name) present
  | none =>
    cases resolves : host.resolve directory with
    | error failure =>
      unfold load find?
      simp only [resolves]
      exact .obstructed failure (.directory failure resolves)
    | ok resolved =>
      unfold load find?
      simp only [resolves]
      rcases firstCandidate?_cases host (directoriesFrom resolved resolved.parts.length) with
        none | ⟨place, upward, candidate⟩
      · simp only [none]
        exact .standard rfl
      · have met : ∀ name, IsFileName name → Considered host directory none (fileIn place name) :=
          fun name isFileName => .met resolved place name resolves upward isFileName
        generalize firstCandidate? host (directoriesFrom resolved resolved.parts.length) = result
          at candidate
        cases candidate with
        | found name isFileName present => exact present_cases _ (met name isFileName) present
        | missing => exact .standard rfl
        | obstructed name isFileName failure failed =>
          exact .obstructed failure (.presence _ _ failure (met name isFileName) failed)
        | unread bytes stop read tabled =>
          exact .unread _ bytes stop (met _ (.inr rfl)) read tabled
        | forbidden => exact .forbidden _ (met _ (.inr rfl))

/-! ## Plans -/

/-- The rules that are always there. -/
theorem mem_of_resolve_builtin
    {name : String}
    {definition : Rule.Definition}
    (resolved : Rule.Registry.builtin.resolve name = .ok definition) :
    definition ∈ [Rule.Definition.elements, .attributes, .custom] := by
  unfold Rule.Registry.resolve at resolved
  split at resolved
  · next found =>
    cases resolved
    obtain ⟨before, behind, split, -⟩ := List.lookup_eq_some_iff.mp found
    have held : (name, definition) ∈ Rule.Registry.builtin := by
      rw [split]
      exact List.mem_append_right _ List.mem_cons_self
    exact @List.mem_map_of_mem _ _ _ _ Prod.snd held
  · contradiction

/-- What a rule that is always there fails with means that it rejects its configuration. -/
theorem isRejection_of_instantiate
    {definition : Rule.Definition}
    {value : Value}
    {failure : Failure}
    (always : definition ∈ [Rule.Definition.elements, .attributes, .custom])
    (failed : definition.instantiate value = .error failure) :
    isRejection failure = true := by
  have valued : ∀ message, isRejection (.ofValue message) = true := fun message => rfl
  cases definition with
  | foreign name make => simp at always
  | _ =>
    simp only [Rule.Definition.instantiate] at failed
    split at failed <;> cases failed
    exact valued _

/-- The rules of a configuration lead to instances or to errors of the configuration. -/
theorem readRuleSet_ne_failure (rules : Table Value) (failure : Failure) :
    (readRuleSet .builtin rules).result ≠ .error (.failure failure) := by
  induction rules with
  | nil => simp [readRuleSet]
  | cons entry rest ih =>
    obtain ⟨rule, value⟩ := entry
    unfold readRuleSet
    split
    · exact ih
    · split
      · exact ih
      · next definition resolved =>
        split
        · next instances made =>
          intro failed
          simp only [RuleReading.withRule, Except.map] at failed
          split at failed
          · next stop same =>
            cases failed
            exact ih same
          · contradiction
        · next stop refused =>
          rintro failed
          cases failed
          cases mapped : (instanceValues value).mapM definition.instantiate with
          | ok instances => simp [makeInstances, mapped, Except.mapError] at refused
          | error other =>
            obtain ⟨item, -, why⟩ := exists_of_mapM_eq_error mapped
            have rejected := isRejection_of_instantiate (mem_of_resolve_builtin resolved) why
            simp [makeInstances, mapped, Except.mapError, stopOf, rejected] at refused

namespace Plan

theorem ofSettings_ne_failure (settings : Settings) (failure : Failure) :
    (ofSettings .builtin settings).1 ≠ .error (.failure failure) := by
  intro failed
  simp only [ofSettings, Except.map] at failed
  split at failed
  · next stop same =>
    cases failed
    exact readRuleSet_ne_failure settings.rules failure same
  · contradiction

end Plan

end Config

namespace CommandLine

open Config (Considered Obstructed)
open Files.Host (find_entry readBytes_entry resolve_root)

/-- A request has no plan because of a failure just when loading its configuration fails. -/
theorem LintRequest.plan_eq_failure_iff
    {request : LintRequest}
    {host : Files.Host}
    {directory : Files.PathName}
    {failure : Failure} :
    (request.plan host directory).1 = .error (.failure failure) ↔
      (Config.load host directory request.config?).result = .error (.failure failure) := by
  unfold plan
  cases loaded : (Config.load host directory request.config?).result with
  | error stop => simp [loaded]
  | ok settings => simp [loaded, Config.Plan.ofSettings_ne_failure]

end CommandLine
end MarkupLint
