import MarkupLint.Proofs.Batch.Reach

/-!
# Reading files side by side

The files of a batch are read side by side, while the lintings of those that have been read take their
turns.  Files may be read in any order and between any two turns, and any time may pass meanwhile.  To
read all files in order before any linting takes a turn is one of the ways in which that can happen.
-/

namespace MarkupLint
namespace Batch

/-- The same batch at another time. -/
def delayed (batch : Batch) (now : Rat) : Batch :=
  { batch with schedule := { batch.schedule with now := now } }

/-- A batch whose files are being read. -/
structure Reading where
  batch : Batch
  /-- The places of the files that have not been read. -/
  unread : List Nat
  /-- The places of the files of the lintings. -/
  places : List Nat

namespace Reading

/-- Go on with a batch, which is told when all files have been read. -/
def goOn (batch : Batch) (unread places : List Nat) : Reading where
  batch := if unread.isEmpty then batch.soon .opened else batch
  unread := unread
  places := places

/-- Begin to read some files. -/
def start (precision : Precision) (precedence : Precedence Turn) (isShown : Bool) (count : Nat) :
    Reading :=
  goOn (empty precision precedence isShown) (List.range count) []

/-- What can happen next: time passes, a turn is taken, or the file at some place is read. -/
inductive Step
    (host : Files.Host)
    (plan : Config.Plan)
    (files : List Files.PathName) :
    Reading → Reading → Prop where
  | delayed
      {reading : Reading}
      (now : Rat)
      (later : reading.batch.schedule.now ≤ now) :
      Step host plan files reading { reading with batch := reading.batch.delayed now }
  | took
      {reading : Reading}
      {after : Batch}
      (taken : reading.batch.next? = some after) :
      Step host plan files reading { reading with batch := after }
  | entered
      {reading : Reading}
      {place : Nat}
      {name : Files.PathName}
      {document : Document}
      (waits : place ∈ reading.unread)
      (known : files[place]? = some name)
      (read : host.readDocument name.text = .ok document) :
      Step host plan files reading
        (goOn (reading.batch.enter plan document) (reading.unread.erase place)
          (reading.places ++ [place]))
  | skipped
      {reading : Reading}
      {place : Nat}
      {name : Files.PathName}
      {error : ParseError}
      (waits : place ∈ reading.unread)
      (known : files[place]? = some name)
      (read : host.readDocument name.text = .error (.refused error)) :
      Step host plan files reading
        (goOn (reading.batch.skip name.text error) (reading.unread.erase place) reading.places)

/-- What can happen one after another. -/
def Reaches (host : Files.Host) (plan : Config.Plan) (files : List Files.PathName) :
    Reading → Reading → Prop :=
  Relation.ReflTransGen (Step host plan files)

/-- The indices of the lintings in the order of the files, of which there is a number. -/
def order (reading : Reading) (count : Nat) : List Nat :=
  (List.range count).filterMap (reading.places.idxOf? ·)

/-- The lintings with indices. -/
def arranged (reading : Reading) (indices : List Nat) : List Linting :=
  indices.filterMap (reading.batch.lintings[·]?)

/-- What it leads to, with the lintings in the order of the files. -/
def result (reading : Reading) (count : Nat) : Except Stop Result :=
  reading.batch.result.map fun result =>
    { result with lintings := reading.arranged (reading.order count) }

end Reading

/-- What linting files by a plan can lead to: what the batch leads to when it is over, or the failure of
a file that cannot be read. -/
inductive LeadsTo
    (host : Files.Host)
    (plan : Config.Plan)
    (precision : Precision)
    (isShown : Bool)
    (files : List Files.PathName) :
    Except Stop Result → Prop where
  | ended
      (precedence : Precedence Turn)
      {last : Reading}
      (path : Reading.Reaches host plan files (.start precision precedence isShown files.length) last)
      (complete : last.batch.isOver = true) :
      LeadsTo host plan precision isShown files (last.result files.length)
  | failed
      (precedence : Precedence Turn)
      {last : Reading}
      {place : Nat}
      {name : Files.PathName}
      {failure : Failure}
      (path : Reading.Reaches host plan files (.start precision precedence isShown files.length) last)
      (waits : place ∈ last.unread)
      (known : files[place]? = some name)
      (read : host.readDocument name.text = .error (.failure failure)) :
      LeadsTo host plan precision isShown files (.error (.failure failure))

/-- The document in the file at a place. -/
def documentAt? (host : Files.Host) (files : List Files.PathName) (place : Nat) :
    Option Document :=
  files[place]?.bind fun name =>
    match host.readDocument name.text with
    | .ok document => some document
    | .error _ => none

/-- The file at a place as it is skipped, if it is refused. -/
def refusalAt? (host : Files.Host) (files : List Files.PathName) (place : Nat) :
    Option SkippedFile :=
  files[place]?.bind fun name =>
    match host.readDocument name.text with
    | .error (.refused error) => some ⟨name.text, error.message⟩
    | _ => none

/-- To go through the places of a list is to go through the list. -/
theorem filterMap_range_getElem? {α β : Type} (pick : α → Option β) (items : List α) :
    (List.range items.length).filterMap (fun index => items[index]?.bind pick) =
      items.filterMap pick := by
  have known : (List.range items.length).map (items[·]?) = items.map some := by
    refine List.ext_getElem (by simp) fun index bound within => ?_
    simp
  have same := congrArg (List.filterMap (·.bind pick)) known
  rwa [List.filterMap_map, List.filterMap_map] at same

section

variable {host : Files.Host} {plan : Config.Plan} {precision : Precision}
  {precedence : Precedence Turn} {isShown : Bool} {files : List Files.PathName}

theorem filterMap_documentAt? :
    (List.range files.length).filterMap (documentAt? host files) = documents host files :=
  filterMap_range_getElem? _ files

theorem filterMap_refusalAt? :
    (List.range files.length).filterMap (refusalAt? host files) = refused host files :=
  filterMap_range_getElem? _ files

end

/-- The places, of which there is a number, of files that have been read. -/
def done (unread : List Nat) (count : Nat) : List Nat := (List.range count).filter (· ∉ unread)

theorem done_nil (count : Nat) : done [] count = List.range count := by simp [done]

theorem done_erase
    {unread : List Nat}
    {place count : Nat}
    (once : unread.Nodup)
    (waits : place ∈ unread)
    (bound : place < count) :
    (done (unread.erase place) count).Perm (place :: done unread count) := by
  have absent : place ∉ done unread count := by simp [done, waits]
  refine (List.perm_ext_iff_of_nodup (List.nodup_range.filter _)
    (List.nodup_cons.mpr ⟨absent, List.nodup_range.filter _⟩)).mpr fun other => ?_
  by_cases same : other = place
  · simp [done, once.mem_erase_iff, same, bound]
  · simp [done, once.mem_erase_iff, same]

namespace Reading

section

variable (batch : Batch) (unread places : List Nat)

theorem batch_goOn :
    (goOn batch unread places).batch = if unread = [] then batch.soon .opened else batch := by
  simp only [goOn, List.isEmpty_iff]

@[simp] theorem unread_goOn : (goOn batch unread places).unread = unread := rfl

@[simp] theorem places_goOn : (goOn batch unread places).places = places := rfl

@[simp] theorem lintings_goOn : (goOn batch unread places).batch.lintings = batch.lintings := by
  rw [batch_goOn]
  split <;> rfl

@[simp] theorem skipped_goOn : (goOn batch unread places).batch.skipped = batch.skipped := by
  rw [batch_goOn]
  split <;> rfl

@[simp] theorem shown_goOn : (goOn batch unread places).batch.shown = batch.shown := by
  rw [batch_goOn]
  split <;> rfl

@[simp] theorem isShown_goOn : (goOn batch unread places).batch.isShown = batch.isShown := by
  rw [batch_goOn]
  split <;> rfl

@[simp] theorem precision_goOn : (goOn batch unread places).batch.precision = batch.precision := by
  rw [batch_goOn]
  split <;> rfl

end

/-- What holds while files are read: the batch is opened when all have been read, and each file that has
been read has a linting or is skipped. -/
structure Valid
    (host : Files.Host)
    (precision : Precision)
    (isShown : Bool)
    (files : List Files.PathName)
    (reading : Reading) : Prop where
  filling : reading.unread ≠ [] → reading.batch.Filling
  recorded : reading.unread = [] → reading.batch.Recorded
  precision_eq : reading.batch.precision = precision
  isShown_eq : reading.batch.isShown = isShown
  once : reading.unread.Nodup
  bounded : ∀ place ∈ reading.unread, place < files.length
  length_eq : reading.batch.lintings.length = reading.places.length
  places_perm : reading.places.Perm
    ((done reading.unread files.length).filter fun place => (documentAt? host files place).isSome)
  skipped_perm : reading.batch.skipped.Perm
    ((done reading.unread files.length).filterMap (refusalAt? host files))

section

variable {host : Files.Host} {plan : Config.Plan} {precision : Precision}
  {precedence : Precedence Turn} {isShown : Bool} {files : List Files.PathName} {reading later : Reading}

theorem Valid.noted (valid : Valid host precision isShown files reading) : reading.batch.Noted := by
  by_cases all : reading.unread = []
  · exact (valid.recorded all).toNoted
  · exact (valid.filling all).toNoted

theorem Valid.goOn
    {batch : Batch}
    {unread places : List Nat}
    (filling : batch.Filling)
    (precision_eq : batch.precision = precision)
    (isShown_eq : batch.isShown = isShown)
    (once : unread.Nodup)
    (bounded : ∀ place ∈ unread, place < files.length)
    (length_eq : batch.lintings.length = places.length)
    (places_perm : places.Perm
      ((done unread files.length).filter fun place => (documentAt? host files place).isSome))
    (skipped_perm : batch.skipped.Perm
      ((done unread files.length).filterMap (refusalAt? host files))) :
    Valid host precision isShown files (Reading.goOn batch unread places) where
  filling some := by
    rw [unread_goOn] at some
    rw [batch_goOn, if_neg some]
    exact filling
  recorded none := by
    rw [unread_goOn] at none
    rw [batch_goOn, if_pos none]
    exact filling.recorded
  precision_eq := by rwa [precision_goOn]
  isShown_eq := by rwa [isShown_goOn]
  once := once
  bounded := bounded
  length_eq := by rwa [lintings_goOn]
  places_perm := places_perm
  skipped_perm := by rwa [skipped_goOn]

theorem Valid.start :
    Valid host precision isShown files (.start precision precedence isShown files.length) := by
  have none : done (List.range files.length) files.length = [] := by simp [done]
  refine .goOn (.empty precision precedence isShown) rfl rfl List.nodup_range
    (fun _ => List.mem_range.mp) rfl
    ?_ ?_
  · rw [none]
    exact .nil
  · rw [none]
    exact .nil

/-- Time that passes while the files are read is of no account. -/
theorem Valid.delayed
    (valid : Valid host precision isShown files reading)
    (now : Rat) :
    Valid host precision isShown files { reading with batch := reading.batch.delayed now } := by
  have noted : ∀ {batch : Batch}, batch.Noted → (batch.delayed now).Noted :=
    fun noted => noted.congr rfl rfl rfl rfl
  refine { valid with filling := fun some => ?_, recorded := fun none => ?_ }
  · have filling := valid.filling some
    exact ⟨noted filling.toNoted, ⟨filling.closing_eq, filling.isOver_eq, filling.own_eq,
      filling.awaited_eq, filling.settled_eq⟩⟩
  · have recorded := valid.recorded none
    exact ⟨noted recorded.toNoted, recorded.stage.popped (.refl _)⟩

/-- A turn of the batch reads nothing. -/
theorem Valid.took
    {after : Batch}
    (valid : Valid host precision isShown files reading)
    (stepped : reading.batch.step? = some after) :
    Valid host precision isShown files { reading with batch := after } := by
  have kept := kept_step stepped
  exact
    { filling := fun some => (valid.filling some).step stepped
      recorded := fun none => (valid.recorded none).step stepped
      precision_eq := kept.precision_eq.trans valid.precision_eq
      isShown_eq := kept.isShown_eq.trans valid.isShown_eq
      once := valid.once
      bounded := valid.bounded
      length_eq := kept.length_lintings_eq.trans valid.length_eq
      places_perm := valid.places_perm
      skipped_perm := by
        rw [kept.skipped_eq]
        exact valid.skipped_perm }

/-- A document that is read becomes a linting. -/
theorem Valid.entered
    {place : Nat}
    {name : Files.PathName}
    {document : Document}
    (plan : Config.Plan)
    (valid : Valid host precision isShown files reading)
    (waits : place ∈ reading.unread)
    (known : files[place]? = some name)
    (read : host.readDocument name.text = .ok document) :
    Valid host precision isShown files
      (Reading.goOn (reading.batch.enter plan document) (reading.unread.erase place)
        (reading.places ++ [place])) := by
  have filling := valid.filling (List.ne_nil_of_mem waits)
  have replaced := reading.batch.replaced_enter plan document
  have found : documentAt? host files place = some document := by
    rw [documentAt?, known, Option.bind_some, read]
  have unrefused : refusalAt? host files place = none := by
    rw [refusalAt?, known, Option.bind_some, read]
  have bound := (List.getElem?_eq_some_iff.mp known).1
  have more := done_erase valid.once waits bound
  refine .goOn (filling.enter plan document) (replaced.precision_eq.trans valid.precision_eq)
    (replaced.isShown_eq.trans valid.isShown_eq) (valid.once.erase place)
    (fun other held => valid.bounded other (List.mem_of_mem_erase held)) ?_ ?_ ?_
  · rw [lintings_enter, List.length_append, List.length_append, valid.length_eq]
    rfl
  · refine ((valid.places_perm.append_right _).trans ?_).trans (more.filter _).symm
    rw [List.filter_cons_of_pos (by rw [found]; rfl)]
    exact List.perm_append_singleton _ _
  · rw [replaced.skipped_eq]
    refine valid.skipped_perm.trans (.trans (.of_eq ?_) (more.filterMap _).symm)
    rw [List.filterMap_cons_none unrefused]

/-- A document that cannot be read is skipped. -/
theorem Valid.skipped
    {place : Nat}
    {name : Files.PathName}
    {error : ParseError}
    (valid : Valid host precision isShown files reading)
    (waits : place ∈ reading.unread)
    (known : files[place]? = some name)
    (read : host.readDocument name.text = .error (.refused error)) :
    Valid host precision isShown files
      (Reading.goOn (reading.batch.skip name.text error) (reading.unread.erase place)
        reading.places) := by
  have filling := valid.filling (List.ne_nil_of_mem waits)
  have unread : documentAt? host files place = none := by
    rw [documentAt?, known, Option.bind_some, read]
  have refused : refusalAt? host files place = some ⟨name.text, error.message⟩ := by
    rw [refusalAt?, known, Option.bind_some, read]
  have bound := (List.getElem?_eq_some_iff.mp known).1
  have more := done_erase valid.once waits bound
  refine .goOn (filling.skip name.text error) valid.precision_eq valid.isShown_eq
    (valid.once.erase place) (fun other held => valid.bounded other (List.mem_of_mem_erase held))
    valid.length_eq ?_ ?_
  · refine valid.places_perm.trans (.trans (.of_eq ?_) (more.filter _).symm)
    rw [List.filter_cons_of_neg (by rw [unread]; exact Bool.false_ne_true)]
  · refine ((valid.skipped_perm.append_right _).trans ?_).trans (more.filterMap _).symm
    rw [List.filterMap_cons_some refused]
    exact List.perm_append_singleton _ _

theorem Valid.step
    (valid : Valid host precision isShown files reading)
    (stepped : Step host plan files reading later) :
    Valid host precision isShown files later := by
  cases stepped with
  | delayed now _ => exact valid.delayed now
  | took taken => exact valid.took (next?_eq_some.mp taken).2
  | entered waits known read => exact valid.entered plan waits known read
  | skipped waits known read => exact valid.skipped waits known read

theorem Reaches.valid
    (path : Reaches host plan files (.start precision precedence isShown files.length) reading) :
    Valid host precision isShown files reading := by
  induction path with
  | refl => exact .start
  | tail _ stepped ih => exact ih.step stepped

/-- What holds while files are read when no linting can be stopped. -/
structure Safe (reading : Reading) : Prop where
  attended : reading.batch.Attended
  sound : reading.unread = [] → reading.batch.Sound

theorem Safe.goOn
    {batch : Batch}
    (filling : batch.Filling)
    (attended : batch.Attended)
    (unread places : List Nat) :
    (Reading.goOn batch unread places).Safe := by
  refine ⟨?_, fun none => ?_⟩
  · rw [batch_goOn]
    split
    · exact attended.soon .opened
    · exact attended
  · rw [unread_goOn] at none
    rw [batch_goOn, if_pos none]
    exact filling.sound attended

theorem Safe.step
    (safe : reading.Safe)
    (valid : Valid host precision isShown files reading)
    (contained : ∀ document ∈ documents host files, plan.rules.IsContained document)
    (stepped : Step host plan files reading later) :
    later.Safe := by
  cases stepped with
  | delayed now later =>
    have attended : (reading.batch.delayed now).Attended :=
      ⟨fun index linting known => (safe.attended.hosted index linting known).mono rfl
        fun _ ready => ready, safe.attended.punctual⟩
    exact ⟨attended, fun none => ⟨(valid.step (@Step.delayed host plan files reading now later)).recorded
      none, attended, (safe.sound none).unrefused⟩⟩
  | took taken =>
    have stepped := (next?_eq_some.mp taken).2
    exact ⟨safe.attended.step stepped, fun none => (safe.sound none).step stepped⟩
  | @entered place name document waits known read =>
    have filling := valid.filling (List.ne_nil_of_mem waits)
    have held := mem_documents.mpr ⟨name, List.mem_of_getElem? known, read⟩
    exact .goOn (filling.enter plan document)
      (safe.attended.enter (contained document held)) _ _
  | @skipped place name error waits known read =>
    have filling := valid.filling (List.ne_nil_of_mem waits)
    have attended : (reading.batch.skip name.text error).Attended :=
      ⟨fun index linting known => (safe.attended.hosted index linting known).mono rfl
        fun _ ready => ready, safe.attended.punctual⟩
    exact .goOn (filling.skip name.text error) attended _ _

theorem Reaches.safe
    (path : Reaches host plan files (.start precision precedence isShown files.length) reading)
    (contained : ∀ document ∈ documents host files, plan.rules.IsContained document) :
    reading.Safe := by
  induction path with
  | refl => exact .goOn (.empty precision precedence isShown) (.empty precision precedence isShown) _ _
  | tail path stepped ih => exact ih.step (Reaches.valid path) contained stepped

/-- Each linting is that of the document in a file, and has a property for that. -/
def Each
    (host : Files.Host)
    (files : List Files.PathName)
    (property : Document → Linting → Prop)
    (reading : Reading) : Prop :=
  ∀ (index : Nat) (linting : Linting), reading.batch.lintings[index]? = some linting →
    ∃ place document, reading.places[index]? = some place ∧
      documentAt? host files place = some document ∧ property document linting

/-- What holds of the lintings of documents as they are started, and is kept in their turns, holds of
them however the files are read. -/
theorem Reaches.each
    {property : Document → Linting → Prop}
    (holds : ∀ document, property document (entered plan precision isShown document))
    (keeps : ∀ (document : Document) (linting : Linting), Linting.Balanced linting →
      property document linting → ∀ now turn, property document (linting.take now turn).linting)
    (path : Reaches host plan files (.start precision precedence isShown files.length) reading) :
    reading.Each host files property := by
  induction path with
  | refl =>
    intro index linting known
    simp [start, Batch.empty] at known
  | @tail middle last path stepped ih =>
    have valid := Reaches.valid path
    cases stepped with
    | delayed => exact ih
    | took taken =>
      intro index linting known
      obtain ⟨before, found, goes⟩ := lintings_step (next?_eq_some.mp taken).2 known
      obtain ⟨place, document, placed, read, held⟩ := ih index before found
      refine ⟨place, document, placed, read, ?_⟩
      rcases goes with rfl | ⟨now, turn, rfl⟩
      · exact held
      · exact keeps document before
          (valid.noted.watched before (List.mem_of_getElem? found)).balanced held now turn
    | @entered place name document waits known read =>
      intro index linting found
      rw [lintings_goOn] at found
      rw [places_goOn]
      rcases getElem?_lintings_enter found with early | ⟨rfl, rfl⟩
      · obtain ⟨other, earlier, placed, rest⟩ := ih index linting early
        refine ⟨other, earlier, ?_, rest⟩
        rw [List.getElem?_append_left (List.getElem?_eq_some_iff.mp placed).1, placed]
      · refine ⟨place, document, ?_, ?_, ?_⟩
        · rw [valid.length_eq, List.getElem?_concat_length]
        · rw [documentAt?, known, Option.bind_some, read]
        · rw [valid.precision_eq, valid.isShown_eq]
          exact holds document
    | skipped =>
      intro index linting found
      rw [lintings_goOn] at found
      exact ih index linting found

/-! ## The order of the files -/

theorem Valid.places_nodup (valid : Valid host precision isShown files reading) :
    reading.places.Nodup :=
  valid.places_perm.nodup_iff.mpr ((List.nodup_range.filter _).filter _)

theorem Valid.mem_places_iff
    (valid : Valid host precision isShown files reading)
    (all : reading.unread = [])
    {place : Nat} :
    place ∈ reading.places ↔ place < files.length ∧ (documentAt? host files place).isSome = true := by
  rw [valid.places_perm.mem_iff, all, done_nil]
  simp

theorem Valid.idxOf?_eq_some_iff
    (valid : Valid host precision isShown files reading)
    {place index : Nat} :
    reading.places.idxOf? place = some index ↔ reading.places[index]? = some place := by
  rw [List.idxOf?_eq_some_iff, List.getElem?_eq_some_iff]
  refine ⟨fun ⟨bound, same, _⟩ => ⟨bound, same⟩, fun ⟨bound, same⟩ => ⟨bound, same, ?_⟩⟩
  intro other before again
  have equal := valid.places_nodup.getElem_inj_iff.mp (again.trans same.symm)
  omega

/-- All lintings have a place in the order of the files. -/
theorem Valid.order_perm (valid : Valid host precision isShown files reading) :
    (reading.order files.length).Perm (List.range reading.batch.lintings.length) := by
  have once : (reading.order files.length).Nodup := by
    refine List.Nodup.filterMap (fun place other index held again => ?_) List.nodup_range
    have first := valid.idxOf?_eq_some_iff.mp held
    have second := valid.idxOf?_eq_some_iff.mp again
    exact Option.some.inj (first.symm.trans second)
  refine (List.perm_ext_iff_of_nodup once List.nodup_range).mpr fun index => ?_
  rw [order, List.mem_filterMap, List.mem_range, valid.length_eq]
  constructor
  · rintro ⟨place, -, found⟩
    exact (List.getElem?_eq_some_iff.mp (valid.idxOf?_eq_some_iff.mp found)).1
  · intro bound
    have known := List.getElem?_eq_getElem bound
    refine ⟨_, ?_, valid.idxOf?_eq_some_iff.mpr known⟩
    have held := valid.places_perm.mem_iff.mp (List.mem_of_getElem? known)
    exact (List.mem_filter.mp (List.mem_filter.mp held).1).1

/-- When files have been read in order, the lintings are in their order. -/
theorem Valid.order_eq_range
    (valid : Valid host precision isShown files reading)
    (ascending : reading.places.Pairwise (· < ·)) :
    reading.order files.length = List.range reading.batch.lintings.length := by
  refine valid.order_perm.eq_of_pairwise (fun first second _ _ before behind => ?_) ?_
    List.pairwise_lt_range
  · omega
  refine List.Pairwise.filterMap _ (fun place other before index found later again => ?_)
    List.pairwise_lt_range
  obtain ⟨bound, rfl⟩ := List.getElem?_eq_some_iff.mp (valid.idxOf?_eq_some_iff.mp found)
  obtain ⟨within, rfl⟩ := List.getElem?_eq_some_iff.mp (valid.idxOf?_eq_some_iff.mp again)
  by_contra unordered
  rcases Nat.lt_or_eq_of_le (Nat.not_lt.mp unordered) with behind | rfl
  · have other := List.pairwise_iff_getElem.mp ascending later index within bound behind
    omega
  · omega

theorem arranged_range (reading : Reading) :
    reading.arranged (List.range reading.batch.lintings.length) = reading.batch.lintings := by
  have same := filterMap_range_getElem? some reading.batch.lintings
  rw [List.filterMap_some] at same
  simpa [arranged] using same

theorem Valid.arranged_perm (valid : Valid host precision isShown files reading) :
    (reading.arranged (reading.order files.length)).Perm reading.batch.lintings :=
  (valid.order_perm.filterMap (reading.batch.lintings[·]?)).trans (.of_eq reading.arranged_range)

/-- When all files have been read, what can be told of the lintings by their documents can be told of
the documents. -/
theorem Each.map_arranged
    {Fact : Type}
    {property : Document → Linting → Prop}
    {fact : Linting → Fact}
    {forecast : Document → Fact}
    (each : reading.Each host files property)
    (valid : Valid host precision isShown files reading)
    (all : reading.unread = [])
    (same : ∀ linting ∈ reading.batch.lintings, ∀ document, property document linting →
      fact linting = forecast document) :
    (reading.arranged (reading.order files.length)).map fact =
      (documents host files).map forecast := by
  rw [← filterMap_documentAt?, arranged, order, List.filterMap_filterMap, List.map_filterMap,
    List.map_filterMap]
  refine List.filterMap_congr fun place held => ?_
  have within := List.mem_range.mp held
  cases read : documentAt? host files place with
  | none =>
    have absent : place ∉ reading.places := by
      rw [valid.mem_places_iff all, read]
      simp
    rw [List.idxOf?_eq_none_iff.mpr absent]
    rfl
  | some document =>
    have present : place ∈ reading.places := (valid.mem_places_iff all).mpr ⟨within, by rw [read]; rfl⟩
    obtain ⟨index, known⟩ := List.mem_iff_getElem?.mp present
    have bound : index < reading.batch.lintings.length := by
      rw [valid.length_eq]
      exact (List.getElem?_eq_some_iff.mp known).1
    have found := List.getElem?_eq_getElem bound
    obtain ⟨other, earlier, placed, again, holds⟩ := each index _ found
    rw [known, Option.some.injEq] at placed
    subst placed
    rw [read, Option.some.injEq] at again
    subst again
    rw [valid.idxOf?_eq_some_iff.mpr known, Option.bind_some, found, Option.map_some, Option.map_some,
      same _ (List.mem_of_getElem? found) document holds]

/-! ## Reading files in order -/

/-- To open files one after another is to read them in order before any turn is taken. -/
theorem reaches_openFiles
    {batch opened : Batch}
    {places : List Nat}
    {front rest : List Files.PathName}
    (split : files = front ++ rest)
    (opens : openFiles host plan batch rest = .ok opened) :
    ∃ others,
      Reaches host plan files (goOn batch (List.range' front.length rest.length) places)
        ⟨opened, [], places ++ others⟩ ∧
      others.Pairwise (· < ·) ∧ ∀ place ∈ others, front.length ≤ place := by
  -- The places that are not read yet are those behind the front, which the next name goes over to.
  induction rest generalizing batch places front with
  | nil =>
    cases opens
    exact ⟨[], by rw [List.append_nil]; exact .refl, .nil, by simp⟩
  | cons name rest ih =>
    have known : files[front.length]? = some name := by simp [split]
    have split : files = (front ++ [name]) ++ rest := by simp [split]
    have length_eq : (front ++ [name]).length = front.length + 1 := by simp
    have waits : front.length ∈ front.length :: List.range' (front.length + 1) rest.length :=
      List.mem_cons_self
    have begins : goOn batch (List.range' front.length (name :: rest).length) places =
        ⟨batch, front.length :: List.range' (front.length + 1) rest.length, places⟩ := rfl
    rw [begins]
    unfold openFiles at opens
    split at opens
    · next document read =>
      obtain ⟨others, path, ascending, above⟩ :=
        @ih (batch.enter plan document) (places ++ [front.length]) _ split opens
      rw [length_eq, List.append_assoc] at path
      rw [length_eq] at above
      refine ⟨front.length :: others, .head ?_ path, List.pairwise_cons.mpr ⟨above, ascending⟩, ?_⟩
      · have step := @Step.entered host plan files ⟨batch, _, places⟩ _ _ _ waits known read
        rwa [List.erase_cons_head] at step
      · intro place held
        rcases List.mem_cons.mp held with rfl | held
        · exact le_refl _
        · exact Nat.le_of_succ_le (above place held)
    · next error read =>
      obtain ⟨others, path, ascending, above⟩ :=
        @ih (batch.skip name.text error) places _ split opens
      rw [length_eq] at path above
      refine ⟨others, .head ?_ path, ascending, fun place held => Nat.le_of_succ_le (above place held)⟩
      have step := @Step.skipped host plan files ⟨batch, _, places⟩ _ _ _ waits known read
      rwa [List.erase_cons_head] at step
    · contradiction

theorem reaches_proceeds
    {batch after : Batch}
    (path : batch.Proceeds after)
    (unread places : List Nat) :
    Reaches host plan files ⟨batch, unread, places⟩ ⟨after, unread, places⟩ := by
  induction path with
  | refl => exact .refl
  | tail _ taken ih => exact ih.tail (.took taken)

/-- When no name has a null character, all files can be read at last. -/
theorem Reaches.exists_unread_eq_nil
    (path : Reaches host plan files (.start precision precedence isShown files.length) reading)
    (clean : ∀ name ∈ files, '\x00' ∉ name.text.toList) :
    ∃ later, Reaches host plan files reading later ∧ later.unread = [] := by
  induction left : reading.unread.length generalizing reading with
  | zero => exact ⟨reading, .refl, List.length_eq_zero_iff.mp left⟩
  | succ count ih =>
    obtain ⟨place, waits⟩ :=
      List.exists_mem_of_length_pos (Nat.lt_of_lt_of_eq (Nat.succ_pos count) left.symm)
    have known := List.getElem?_eq_getElem (path.valid.bounded place waits)
    have less : (reading.unread.erase place).length = count := by
      rw [List.length_erase_of_mem waits, left, Nat.add_sub_cancel]
    -- The file at the place is read next.
    have next : ∃ middle, Step host plan files reading middle ∧
        middle.unread = reading.unread.erase place := by
      cases read : host.readDocument (files.get ⟨place, path.valid.bounded place waits⟩).text with
      | ok document => exact ⟨_, .entered waits known read, rfl⟩
      | error stop =>
        cases stop with
        | refused error => exact ⟨_, .skipped waits known read, rfl⟩
        | failure failure =>
          exact absurd read (host.readDocument_ne_failure (clean _ (List.getElem_mem _)) failure)
    obtain ⟨middle, stepped, unread_eq⟩ := next
    obtain ⟨later, others, all⟩ := ih (Relation.ReflTransGen.tail path stepped) (unread_eq ▸ less)
    exact ⟨later, .head stepped others, all⟩

/-- When all files can be opened, that is one of the ways in which they can be read. -/
theorem exists_reaches_openFiles
    {opened : Batch}
    (opens : openFiles host plan (empty precision precedence isShown) files = .ok opened) :
    ∃ places,
      Reaches host plan files (.start precision precedence isShown files.length) ⟨opened, [], places⟩ ∧
        places.Pairwise (· < ·) := by
  obtain ⟨places, path, ascending, -⟩ := @reaches_openFiles host plan files _ _ [] [] _ rfl opens
  rw [List.length_nil, ← List.range_eq_range'] at path
  exact ⟨places, path, ascending⟩

end

/-- While files are read, the batch is not over. -/
theorem Valid.unread_eq_nil
    {host : Files.Host}
    {precision : Precision}
    {isShown : Bool}
    {files : List Files.PathName}
    {reading : Reading}
    (valid : Valid host precision isShown files reading)
    (complete : reading.batch.isOver = true) :
    reading.unread = [] := by
  by_contra some
  rw [(valid.filling some).isOver_eq] at complete
  contradiction

/-- What it leads to when the batch has come to its end and no linting was stopped. -/
def outcome (reading : Reading) (count : Nat) : Result :=
  { reading.batch.outcome with lintings := reading.arranged (reading.order count) }

theorem result_eq_ok_iff {reading : Reading} {count : Nat} {result : Result} :
    reading.result count = .ok result ↔
      reading.batch.isOver = true ∧ reading.batch.closing? = some (.ok ()) ∧
        result = reading.outcome count := by
  rw [Reading.result]
  cases leads : reading.batch.result with
  | error stop =>
    refine ⟨fun same => (nomatch same), fun ⟨complete, closing, _⟩ => ?_⟩
    rw [Batch.result_eq_ok_iff.mpr ⟨complete, closing, rfl⟩] at leads
    contradiction
  | ok other =>
    obtain ⟨complete, closing, rfl⟩ := Batch.result_eq_ok_iff.mp leads
    rw [Except.map, Except.ok.injEq]
    exact ⟨fun same => ⟨complete, closing, same.symm⟩, fun ⟨_, _, same⟩ => same.symm⟩

end Reading

section

variable {host : Files.Host} {plan : Config.Plan} {precision : Precision}
  {precedence : Precedence Turn} {isShown : Bool} {files : List Files.PathName}

/-- What the files lead to when they are opened one after another is what they lead to when they are read
in order. -/
theorem result_of_ascending
    {batch : Batch}
    {places : List Nat}
    (path : Reading.Reaches host plan files (.start precision precedence isShown files.length)
      ⟨batch, [], places⟩)
    (ascending : places.Pairwise (· < ·)) :
    (⟨batch, [], places⟩ : Reading).result files.length = batch.result := by
  rw [Reading.result, (Reading.Reaches.valid path).order_eq_range ascending, Reading.arranged_range]
  cases leads : batch.result with
  | error stop => rfl
  | ok result =>
    obtain ⟨-, -, rfl⟩ := result_eq_ok_iff.mp leads
    rfl

/-- When files cannot be opened, one of them cannot be read. -/
theorem exists_failure_of_openFiles
    {batch : Batch}
    {failure : Failure}
    (fails : openFiles host plan batch files = .error failure) :
    ∃ name ∈ files, host.readDocument name.text = .error (.failure failure) := by
  induction files generalizing batch with
  | nil => contradiction
  | cons name rest ih =>
    unfold openFiles at fails
    split at fails
    · obtain ⟨other, held, read⟩ := ih fails
      exact ⟨other, List.mem_cons_of_mem _ held, read⟩
    · obtain ⟨other, held, read⟩ := ih fails
      exact ⟨other, List.mem_cons_of_mem _ held, read⟩
    · next other read =>
      cases fails
      exact ⟨name, List.mem_cons_self, read⟩

/-- What linting files does lead to is one of the things that it can lead to, if it comes to an end. -/
theorem leadsTo_lint
    (ends : ∀ opened, openFiles host plan (empty precision precedence isShown) files = .ok opened →
      ∃ later, opened.Reaches later ∧ later.isOver = true) :
    LeadsTo host plan precision isShown files (lint host plan precision precedence isShown files) := by
  rw [lint]
  cases opens : openFiles host plan (empty precision precedence isShown) files with
  | error failure =>
    obtain ⟨name, held, read⟩ := exists_failure_of_openFiles opens
    obtain ⟨place, bound, known⟩ := List.getElem_of_mem held
    refine .failed precedence .refl (List.mem_range.mpr bound) ?_ read
    rw [List.getElem?_eq_getElem bound, known]
  | ok opened =>
    obtain ⟨later, path, complete⟩ := ends opened opens
    obtain ⟨places, opening, ascending⟩ := Reading.exists_reaches_openFiles opens
    obtain ⟨proceeds, isOver⟩ := path.run_eq complete
    have reached := Relation.ReflTransGen.trans opening (Reading.reaches_proceeds proceeds [] places)
    have same := result_of_ascending reached ascending
    have leads : LeadsTo host plan precision isShown files
        ((⟨opened.run, [], places⟩ : Reading).result files.length) := .ended precedence reached isOver
    rwa [same] at leads

end
end Batch
end MarkupLint
