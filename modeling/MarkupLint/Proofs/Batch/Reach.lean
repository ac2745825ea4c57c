import MarkupLint.Proofs.Batch.Opening
import Mathlib.Algebra.Ring.Nat

/-!
# How batches come to their ends

Once all instances have ended, a batch hosts its lintings to their ends one after another, and then
gets on with its own work until it is over.
-/

namespace MarkupLint
namespace Batch

open Linting (AllEnded Hosts)

/-- A batch that takes turns, be it over or not. -/
def Reaches : Batch → Batch → Prop :=
  Relation.ReflTransGen fun before after : Batch => before.step? = some after

/-- A batch that takes turns until it is over. -/
def Proceeds : Batch → Batch → Prop :=
  Relation.ReflTransGen fun before after : Batch => before.next? = some after

/-- Take at most the given number of turns, be the batch over or not. -/
def goOn : Nat → Batch → Batch
  | 0, batch => batch
  | turns + 1, batch =>
    match batch.step? with
    | some later => goOn turns later
    | none => batch

section

variable {batch later : Batch}

theorem reaches_goOn (batch : Batch) (turns : Nat) : batch.Reaches (batch.goOn turns) := by
  induction turns generalizing batch with
  | zero => exact .refl
  | succ turns ih =>
    simp only [goOn]
    split
    · next later stepped => exact .head stepped (ih later)
    · exact .refl

theorem Recorded.reaches (recorded : batch.Recorded) (path : batch.Reaches later) :
    later.Recorded := by
  induction path with
  | refl => exact recorded
  | tail _ stepped ih => exact ih.step stepped

theorem Sound.reaches (sound : batch.Sound) (path : batch.Reaches later) : later.Sound := by
  induction path with
  | refl => exact sound
  | tail _ stepped ih => exact ih.step stepped

/-- In a turn of a batch, each linting takes a turn or is let alone. -/
theorem lintings_step
    {index : Nat}
    {after : Linting}
    (stepped : batch.step? = some later)
    (known : later.lintings[index]? = some after) :
    ∃ before, batch.lintings[index]? = some before ∧
      (after = before ∨ ∃ now turn, after = (before.take now turn).linting) := by
  obtain ⟨⟨first, schedule⟩, next, rfl⟩ := Option.map_eq_some_iff.mp stepped
  cases taken { batch with schedule := schedule } first with
  | apart isOwn apart =>
    rw [apart.lintings_eq] at known
    exact ⟨after, known, .inl rfl⟩
  | followed other turn linting isLinting found same =>
    rw [same, (absorbed_follow _ _ _).lintings_eq, List.getElem?_set] at known
    split at known
    · next here =>
      subst here
      split at known
      · cases known
        exact ⟨linting, found, .inr ⟨_, _, rfl⟩⟩
      · contradiction
    · exact ⟨after, known, .inl rfl⟩
  | nothing other turn isLinting unknown same =>
    rw [same] at known
    exact ⟨after, known, .inl rfl⟩

/-- What turns do not change: the lintings stay the same ones, skipped files stay skipped, and
lintings are shown as they were. -/
structure Kept (before after : Batch) : Prop where
  settings_eq : after.lintings.map (·.toSetting) = before.lintings.map (·.toSetting)
  skipped_eq : after.skipped = before.skipped
  precision_eq : after.precision = before.precision
  isShown_eq : after.isShown = before.isShown

theorem Kept.length_lintings_eq (kept : Kept batch later) :
    later.lintings.length = batch.lintings.length := by
  have same := congrArg List.length kept.settings_eq
  rwa [List.length_map, List.length_map] at same

theorem kept_step (stepped : batch.step? = some later) : Kept batch later := by
  obtain ⟨⟨first, schedule⟩, next, rfl⟩ := Option.map_eq_some_iff.mp stepped
  cases taken { batch with schedule := schedule } first with
  | apart isOwn apart =>
    exact ⟨congrArg _ apart.lintings_eq, apart.skipped_eq, apart.precision_eq, apart.isShown_eq⟩
  | followed index turn linting isLinting known same =>
    have absorbed := ({ batch with schedule := schedule } : Batch).absorbed_follow index
      (linting.take schedule.now turn)
    obtain ⟨bound, found⟩ := List.getElem?_eq_some_iff.mp
      (show (batch.lintings.map (·.toSetting))[index]? = some linting.toSetting by
        rw [List.getElem?_map, known, Option.map_some])
    rw [same]
    refine ⟨?_, absorbed.skipped_eq, absorbed.precision_eq, absorbed.isShown_eq⟩
    rw [absorbed.lintings_eq, List.map_set, Linting.setting_take, ← found]
    exact List.set_getElem_self bound
  | nothing index turn isLinting unknown same =>
    rw [same]
    exact ⟨rfl, rfl, rfl, rfl⟩

theorem Reaches.kept (path : batch.Reaches later) : Kept batch later := by
  induction path with
  | refl => exact ⟨rfl, rfl, rfl, rfl⟩
  | tail _ stepped ih =>
    have last := kept_step stepped
    exact ⟨last.settings_eq.trans ih.settings_eq, last.skipped_eq.trans ih.skipped_eq,
      last.precision_eq.trans ih.precision_eq, last.isShown_eq.trans ih.isShown_eq⟩

/-- In a turn of a batch, each linting goes on as it takes a turn, or is let alone. -/
theorem exists_linting_step
    {index : Nat}
    {before : Linting}
    (stepped : batch.step? = some later)
    (known : batch.lintings[index]? = some before) :
    ∃ after, later.lintings[index]? = some after ∧
      (after = before ∨ ∃ now turn, after = (before.take now turn).linting) := by
  have bound : index < later.lintings.length := by
    rw [(kept_step stepped).length_lintings_eq]
    exact (List.getElem?_eq_some_iff.mp known).1
  have found := List.getElem?_eq_getElem bound
  obtain ⟨other, same, goes⟩ := lintings_step stepped found
  obtain rfl := Option.some.inj (known.symm.trans same)
  exact ⟨_, found, goes⟩

/-- A linting that has come to its end stays so. -/
theorem Sound.hasAnswered_step
    {index : Nat}
    (sound : batch.Sound)
    (stepped : batch.step? = some later)
    (answered : batch.hasAnswered index = true) :
    later.hasAnswered index = true := by
  obtain ⟨before, known, answered⟩ := (Option.any_eq_true _ _).mp answered
  obtain ⟨after, found, goes⟩ := exists_linting_step stepped known
  refine (Option.any_eq_true _ _).mpr ⟨after, found, ?_⟩
  rcases goes with rfl | ⟨now, turn, rfl⟩
  · exact answered
  · exact isAnswered_take (sound.hosted index before known).started answered

theorem Sound.hasAnswered_reaches
    {index : Nat}
    (sound : batch.Sound)
    (path : batch.Reaches later)
    (answered : batch.hasAnswered index = true) :
    later.hasAnswered index = true := by
  induction path with
  | refl => exact answered
  | tail path stepped ih => exact (sound.reaches path).hasAnswered_step stepped ih

/-- All members of all lintings have ended. -/
def AllSettled (batch : Batch) : Prop := ∀ linting ∈ batch.lintings, linting.AllEnded

instance (batch : Batch) : Decidable batch.AllSettled :=
  inferInstanceAs (Decidable (∀ linting ∈ batch.lintings, linting.AllEnded))

theorem AllSettled.step
    (settled : batch.AllSettled)
    (sound : batch.Sound)
    (stepped : batch.step? = some later) :
    later.AllSettled := by
  intro after held
  obtain ⟨index, known⟩ := List.mem_iff_getElem?.mp held
  obtain ⟨before, found, same⟩ := lintings_step stepped known
  have ended := settled before (List.mem_of_getElem? found)
  rcases same with rfl | ⟨now, turn, rfl⟩
  · exact ended
  · exact ended.take (sound.hosted index before found).balanced now turn

/-- A batch hosts each of its lintings. -/
theorem hosts (index : Nat) :
    Hosts (fun before after : Batch => before.step? = some after) Batch.schedule
      (fun batch => batch.lintings[index]?.getD default) (Turn.linting index)
      fun batch => batch.Sound ∧ index < batch.lintings.length := by
  have hosted : ∀ batch : Batch, batch.Sound ∧ index < batch.lintings.length →
      batch.Hosted index (batch.lintings[index]?.getD default) := by
    rintro batch ⟨sound, bound⟩
    rw [List.getElem?_eq_getElem bound, Option.getD_some]
    exact sound.hosted index _ (List.getElem?_eq_getElem bound)
  refine ⟨?_, fun batch valid => (hosted batch valid).balanced,
    fun batch valid => (hosted batch valid).started,
    fun batch valid => (hosted batch valid).tended, ?_⟩
  · intro first second same
    exact (Turn.linting.inj same).2
  rintro batch first schedule ⟨sound, bound⟩ next
  have stepped : batch.step? = some ({ batch with schedule := schedule }.take first) := by
    rw [step?, next, Option.map_some]
  refine ⟨_, stepped, ⟨sound.step stepped, ?_⟩, ?_, ?_⟩
  · rw [(kept_step stepped).length_lintings_eq]
    exact bound
  · cases taken { batch with schedule := schedule } first with
    | apart isOwn apart => exact apart.ready
    | followed other turn linting isLinting known same =>
      rw [same]
      exact (absorbed_follow { batch with schedule := schedule } _ _).ready
    | nothing other turn isLinting unknown same =>
      exact same.symm ▸ List.prefix_rfl
  · cases taken { batch with schedule := schedule } first with
    | apart isOwn apart =>
      refine .rested ?_ (batch.lintings[index]?.getD default).audience (by rw [apart.lintings_eq])
      rintro turn rfl
      contradiction
    | followed other turn linting isLinting known same =>
      have known : batch.lintings[other]? = some linting := known
      rw [same, (absorbed_follow _ _ _).lintings_eq, List.getElem?_set]
      by_cases here : other = index
      · subst here
        rw [if_pos rfl, if_pos bound, known]
        exact .took turn isLinting rfl
      · rw [if_neg here]
        refine .rested ?_ (batch.lintings[index]?.getD default).audience rfl
        rintro own rfl
        exact here (Turn.linting.inj isLinting).1.symm
    | nothing other turn isLinting unknown same =>
      rw [same]
      refine .rested ?_ (batch.lintings[index]?.getD default).audience rfl
      rintro own rfl
      obtain ⟨rfl, -⟩ := Turn.linting.inj isLinting
      rw [List.getElem?_eq_none_iff] at unknown
      exact absurd bound (Nat.not_lt.mpr unknown)

/-- The lintings come to their ends one after another, as each of them can while the batch keeps a
property. -/
theorem Sound.exists_allAnswered
    {property : Batch → Prop}
    (keeps : ∀ batch later : Batch, batch.Sound → property batch → batch.step? = some later →
      property later)
    (answers : ∀ batch : Batch, batch.Sound → property batch → ∀ index < batch.lintings.length,
      ∃ later, batch.Reaches later ∧ later.hasAnswered index = true)
    (sound : batch.Sound)
    (holds : property batch) :
    ∃ later, batch.Reaches later ∧ later.AllAnswered := by
  have kept : ∀ {later : Batch}, batch.Reaches later → property later := by
    intro later path
    induction path with
    | refl => exact holds
    | tail path stepped ih => exact keeps _ _ (sound.reaches path) ih stepped
  suffices ∀ count, ∃ later, batch.Reaches later ∧
      ∀ index < count, index < later.lintings.length → later.hasAnswered index = true by
    obtain ⟨later, path, answered⟩ := this batch.lintings.length
    exact ⟨later, path, fun index bound => answered index (path.kept.length_lintings_eq ▸ bound) bound⟩
  intro count
  induction count with
  | zero => exact ⟨batch, .refl, by simp⟩
  | succ count ih =>
    obtain ⟨middle, path, answered⟩ := ih
    by_cases bound : count < middle.lintings.length
    · obtain ⟨later, others, last⟩ := answers middle (sound.reaches path) (kept path) count bound
      refine ⟨later, path.trans others, fun index below within => ?_⟩
      rcases Nat.lt_succ_iff_lt_or_eq.mp below with early | rfl
      · refine (sound.reaches path).hasAnswered_reaches others (answered index early ?_)
        exact others.kept.length_lintings_eq ▸ within
      · exact last
    · exact ⟨middle, path, fun index below within => answered index (by omega) within⟩

/-- When all members of all lintings have ended, all lintings come to their ends. -/
theorem Sound.exists_allAnswered_of_allSettled
    (sound : batch.Sound)
    (settled : batch.AllSettled) :
    ∃ later, batch.Reaches later ∧ later.AllAnswered := by
  refine sound.exists_allAnswered (fun _ _ kept held stepped => held.step kept stepped) ?_ settled
  intro batch kept held index bound
  have hosted := kept.hosted index _ (List.getElem?_eq_getElem bound)
  obtain ⟨later, path, ⟨last, inside⟩, closed⟩ := (hosts index).exists_isClosed ⟨kept, bound⟩
    (by simpa [bound] using hosted.unstopped)
    (by simpa [bound] using held _ (List.getElem_mem bound))
  refine ⟨later, path, hasAnswered_of_hasClosed ?_⟩
  rw [List.getElem?_eq_getElem inside, Option.getD_some] at closed
  rwa [hasClosed, List.getElem?_eq_getElem inside, Option.any_some]

end

/-- The work of a turn of a batch itself, with that of the turns that it leads to, when there are some
lintings. -/
def Turn.work (size : Nat) : Turn → Nat
  | linting _ _ => 0
  | opened => 3 * size + 3
  | gather => 3 * size + 2
  | wait _ => 3
  | settle _ => 2
  | conclude => 1

/-- The work of the turns of a batch itself that are on the schedule. -/
def work (batch : Batch) : Nat := (batch.own.map (Turn.work batch.lintings.length)).sum

section

variable {batch later : Batch} {turn : Turn}

theorem work_soon (batch : Batch) (turn : Turn) :
    (batch.soon turn).work =
      (if turn.isOwn then turn.work batch.lintings.length else 0) + batch.work := by
  have same := ((own_soon batch turn).map (Turn.work batch.lintings.length)).sum_nat
  refine same.trans ?_
  split
  · rw [List.map_cons, List.sum_cons]
    rfl
  · exact (Nat.zero_add _).symm

/-- A turn of the batch itself leads to less work than it was. -/
theorem work_take_lt (isOwn : turn.isOwn = true) (batch : Batch) :
    (batch.take turn).work < turn.work batch.lintings.length + batch.work := by
  cases turn with
  | linting index turn => contradiction
  | opened =>
    simp only [take, work_soon]
    simp [Turn.isOwn, Turn.work]
  | gather =>
    simp only [take, gather]
    split
    · rw [work_soon]
      change 1 + batch.work < _
      simp only [Turn.work]
      omega
    · obtain ⟨schedule, same, -, -, own_perm⟩ := foldl_soon_wait batch _
      rw [same, work, (own_perm.map _).sum_nat, List.map_append, List.sum_append, List.map_map]
      change batch.work + ((List.range batch.lintings.length).map fun _ => 3).sum < _
      rw [List.map_const', List.sum_replicate_nat, List.length_range]
      simp only [Turn.work]
      omega
  | wait index =>
    simp only [take, wait]
    split
    · rw [work_soon]
      change 2 + batch.work < 3 + batch.work
      omega
    · change batch.work < 3 + batch.work
      omega
  | settle index =>
    simp only [take, settle]
    split
    · change batch.work < 2 + batch.work
      omega
    · split
      · rw [work_soon]
        change 1 + batch.work < 2 + batch.work
        omega
      · split
        · rw [work_soon]
          change 1 + batch.work < 2 + batch.work
          omega
        · change batch.work < 2 + batch.work
          omega
  | conclude =>
    change batch.work < 1 + batch.work
    omega

/-- As long as all lintings have come to their ends, their turns bring a batch no work. -/
theorem work_follow
    {index : Nat}
    {linting : Linting}
    {now : Rat}
    {turn : Linting.Turn}
    (answered : batch.AllAnswered)
    (known : batch.lintings[index]? = some linting) :
    (batch.follow index (linting.take now turn)).work = batch.work := by
  have unexpected : index ∉ batch.expected := by
    intro expected
    obtain ⟨-, unanswered⟩ := List.mem_filter.mp expected
    rw [answered index (List.getElem?_eq_some_iff.mp known).1] at unanswered
    contradiction
  have own_perm : (batch.follow index (linting.take now turn)).own.Perm batch.own :=
    own_follow_of_unexpected known unexpected
  rw [work, work, length_lintings_follow]
  exact (own_perm.map _).sum_nat

/-- A sound batch that is not over has a turn of its own when all lintings have come to their ends. -/
theorem Sound.exists_mem_own
    (sound : batch.Sound)
    (answered : batch.AllAnswered)
    (ahead : batch.isOver = false) :
    ∃ turn, turn ∈ batch.own := by
  cases sound.stage with
  | opened closing_eq isOver_eq own_eq =>
    rcases own_eq with same | same
    · exact ⟨.opened, by rw [same]; exact List.mem_cons_self⟩
    · exact ⟨.gather, by rw [same]; exact List.mem_cons_self⟩
  | looking looking =>
    have some : 0 < batch.looks.length := by
      have counted := looking.counted
      have undone := looking.undone
      omega
    obtain ⟨index, known⟩ := List.exists_mem_of_length_pos some
    rcases List.mem_append.mp known with held | expected
    · obtain ⟨turn, held, -⟩ := List.mem_filterMap.mp held
      exact ⟨turn, held⟩
    · obtain ⟨-, unanswered⟩ := List.mem_filter.mp expected
      rw [answered index (looking.known index known)] at unanswered
      contradiction
  | closing closing_eq isOver_eq own_eq =>
    exact ⟨.conclude, by rw [own_eq]; exact List.mem_cons_self⟩
  | complete closing_eq isOver_eq =>
    rw [ahead] at isOver_eq
    contradiction
  | refused refusal closing_eq => exact absurd closing_eq (sound.unrefused refusal)

/-- The turns of the batch itself have no timers, so they are ready. -/
theorem Sound.mem_ready
    (sound : batch.Sound)
    (held : turn ∈ batch.own) :
    turn ∈ batch.schedule.ready := by
  obtain ⟨known, isOwn⟩ := List.mem_filter.mp held
  rcases List.mem_append.mp known with ready | timed
  · exact ready
  · obtain ⟨timer, waits, rfl⟩ := List.mem_map.mp timed
    rw [sound.punctual timer waits] at isOwn
    contradiction

theorem AllAnswered.step
    (answered : batch.AllAnswered)
    (sound : batch.Sound)
    (stepped : batch.step? = some later) :
    later.AllAnswered := by
  intro index bound
  rw [(kept_step stepped).length_lintings_eq] at bound
  exact sound.hasAnswered_step stepped (answered index bound)

/-- When all lintings have come to their ends, the batch gets on with its own work. -/
theorem Sound.exists_work_lt
    (sound : batch.Sound)
    (answered : batch.AllAnswered)
    (ahead : batch.isOver = false) :
    ∃ later, batch.Reaches later ∧ (later.Sound ∧ later.AllAnswered) ∧ later.work < batch.work := by
  obtain ⟨turn, held⟩ := sound.exists_mem_own answered ahead
  have isOwn := (List.mem_filter.mp held).2
  refine @Schedule.exists_of_mem_ready Turn Batch (fun before after => before.step? = some after)
    Batch.schedule (fun before => (before.Sound ∧ before.AllAnswered) ∧ before.work = batch.work)
    (fun after => (after.Sound ∧ after.AllAnswered) ∧ after.work < batch.work) turn ?_ batch
    ⟨⟨sound, answered⟩, rfl⟩ (sound.mem_ready held)
  rintro before first schedule ⟨⟨kept, still⟩, same_work⟩ next
  have stepped : before.step? = some ({ before with schedule := schedule }.take first) := by
    rw [step?, next, Option.map_some]
  have own_perm := own_next? next
  refine ⟨_, stepped, ?_⟩
  have holds := And.intro (kept.step stepped) (still.step kept stepped)
  cases taken { before with schedule := schedule } first with
  | apart own apart =>
    refine .inl ⟨holds, ?_⟩
    rw [if_pos own] at own_perm
    have less := work_take_lt own { before with schedule := schedule }
    have total := (own_perm.map (Turn.work before.lintings.length)).sum_nat
    rw [List.map_cons, List.sum_cons] at total
    rw [← same_work]
    exact less.trans_eq total.symm
  | followed index own linting isLinting known same =>
    refine .inr ⟨⟨holds, ?_⟩, ?_, ?_⟩
    · rw [isLinting] at own_perm
      rw [same, @work_follow { before with schedule := schedule } index linting _ own still known,
        ← same_work]
      exact (own_perm.map (Turn.work before.lintings.length)).sum_nat.symm
    · rintro rfl
      rw [isLinting] at isOwn
      contradiction
    · rw [same]
      exact (absorbed_follow { before with schedule := schedule } _ _).ready
  | nothing index own isLinting unknown same =>
    refine .inr ⟨⟨holds, ?_⟩, ?_, ?_⟩
    · rw [isLinting] at own_perm
      rw [same, ← same_work]
      exact (own_perm.map (Turn.work before.lintings.length)).sum_nat.symm
    · rintro rfl
      rw [isLinting] at isOwn
      contradiction
    · exact same.symm ▸ List.prefix_rfl

/-- When all lintings have come to their ends, so does the batch. -/
theorem Sound.exists_isOver
    (sound : batch.Sound)
    (answered : batch.AllAnswered) :
    ∃ later, batch.Reaches later ∧ later.isOver = true := by
  induction work : batch.work using Nat.strong_induction_on generalizing batch with
  | h left ih =>
    cases complete : batch.isOver with
    | true => exact ⟨batch, .refl, complete⟩
    | false =>
      obtain ⟨next, path, ⟨still, all⟩, less⟩ := sound.exists_work_lt answered complete
      obtain ⟨later, others, complete⟩ := ih next.work (work ▸ less) still all rfl
      exact ⟨later, path.trans others, complete⟩

theorem next?_eq_some : batch.next? = some later ↔ batch.isOver = false ∧ batch.step? = some later := by
  rw [next?]
  cases batch.isOver <;> simp

theorem Proceeds.reaches (path : batch.Proceeds later) : batch.Reaches later :=
  Relation.ReflTransGen.mono (fun _ _ taken => (next?_eq_some.mp taken).2) _ _ path

/-- A batch is run from its next turn on. -/
theorem run_eq_of_next? (taken : batch.next? = some later) : batch.run = later.run := by
  rw [run, repeatM_eq_of_monadTail, repeatM.body, taken]
  rfl

/-- A batch without a next turn is at the end of its run. -/
theorem run_eq_self (ended : batch.next? = none) : batch.run = batch := by
  rw [run, repeatM_eq_of_monadTail, repeatM.body, ended]
  rfl

theorem next?_of_isOver (complete : batch.isOver = true) : batch.next? = none := if_pos complete

/-- A batch that can get over its end is run until it does. -/
theorem Reaches.run_eq
    (path : batch.Reaches later)
    (complete : later.isOver = true) :
    batch.Proceeds batch.run ∧ batch.run.isOver = true := by
  induction path using Relation.ReflTransGen.head_induction_on with
  | refl =>
    rw [run_eq_self (next?_of_isOver complete)]
    exact ⟨.refl, complete⟩
  | @head before middle stepped _ ih =>
    cases ahead : before.isOver with
    | true =>
      rw [run_eq_self (next?_of_isOver ahead)]
      exact ⟨.refl, ahead⟩
    | false =>
      have taken : before.next? = some middle := next?_eq_some.mpr ⟨ahead, stepped⟩
      rw [run_eq_of_next? taken]
      exact ⟨.head taken ih.1, ih.2⟩

/-- A batch takes turns until it is over for the first time. -/
theorem run_eq_goOn
    {turns : Nat}
    (ahead : ∀ earlier < turns, (batch.goOn earlier).isOver = false)
    (complete : (batch.goOn turns).isOver = true) :
    batch.run = batch.goOn turns := by
  induction turns generalizing batch with
  | zero =>
    exact run_eq_self (next?_of_isOver complete)
  | succ turns ih =>
    have goes : batch.isOver = false := ahead 0 (Nat.succ_pos turns)
    cases stepped : batch.step? with
    | none =>
      simp only [goOn, stepped] at complete
      rw [goes] at complete
      contradiction
    | some later =>
      simp only [goOn, stepped] at complete ⊢
      rw [run_eq_of_next? (next?_eq_some.mpr ⟨goes, stepped⟩)]
      refine ih (fun earlier bound => ?_) complete
      have known := ahead (earlier + 1) (Nat.succ_lt_succ bound)
      simpa only [goOn, stepped] using known

/-- What a batch leads to when it has come to its end and no linting was stopped. -/
def outcome (batch : Batch) : Result where
  lintings := batch.lintings
  skipped := sortSkipped batch.skipped
  errorCount := batch.errorCount
  presented := batch.presented
  shown := batch.shown
  logs := batch.logs
  time := batch.schedule.now

theorem result_eq_ok_iff {result : Result} :
    batch.result = .ok result ↔
      batch.isOver = true ∧ batch.closing? = some (.ok ()) ∧ result = batch.outcome := by
  unfold Batch.result
  split
  · next refused => simp [refused]
  · next complete closing =>
    rw [Except.ok.injEq]
    exact ⟨fun same => ⟨complete, closing, same.symm⟩, fun ⟨_, _, same⟩ => same.symm⟩
  · next unrefused unclosed =>
    refine ⟨fun same => (nomatch same), fun ⟨complete, closing, _⟩ => ?_⟩
    exact (unclosed complete closing).elim

/-- A sound batch whose lintings come to their ends is run to its outcome. -/
theorem Sound.run
    (sound : batch.Sound)
    (path : batch.Reaches later)
    (answered : later.AllAnswered) :
    batch.Proceeds batch.run ∧ batch.run.result = .ok batch.run.outcome := by
  obtain ⟨last, others, complete⟩ := (sound.reaches path).exists_isOver answered
  obtain ⟨proceeds, isOver⟩ := Reaches.run_eq (path.trans others) complete
  have final := sound.reaches proceeds.reaches
  exact ⟨proceeds, result_eq_ok_iff.mpr ⟨isOver, final.stage.of_isOver isOver final.unrefused, rfl⟩⟩

end

end Batch
end MarkupLint
