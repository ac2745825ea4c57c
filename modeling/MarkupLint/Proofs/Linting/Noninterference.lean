import MarkupLint.Proofs.Linting.Shadow

/-!
# Observers do not interfere

Whoever subscribes to the milestones of a linting, in whatever order, whatever observers subscribe
others, and whatever they fail with: sessions that make the same operations give the same views.
-/

namespace MarkupLint
namespace Linting
namespace Session

/-- A session beside its shadow that has made all requests, has to wait, or has just begun. -/
structure Accompanied
    (linting : Linting)
    (precedence : Precedence SessionTurn)
    (requests : List Request)
    (session shadow : Session) : Prop
    extends Shadows requests (linting.view 0) session shadow where
  awake : session.caller = .free → session.requests = [] ∨ session = new linting precedence requests

namespace Accompanied

variable {linting : Linting} {precedence : Precedence SessionTurn} {requests : List Request}
  {session shadow later : Session}

theorem new
    (linting : Linting)
    (precedence : Precedence SessionTurn)
    (requests : List Request) :
    Accompanied linting precedence requests (new linting precedence requests)
      (new linting precedence (requests.filter Request.isOperation)) where
  schedule_eq := rfl
  caller_eq := rfl
  linting_eq := rfl
  left_eq := rfl
  operations_eq := rfl
  busy := fun busy => absurd rfl busy
  views_eq := by simp [operationViews, Session.new]
  still := by simp [Session.new]
  awake := fun _ => .inr rfl

/-- A session that has just begun lets the caller take the first turn, at the beginning of time. -/
theorem next?_new
    {turn : SessionTurn}
    {schedule : Schedule SessionTurn}
    (popped : (Session.new linting precedence requests).schedule.next? = some (turn, schedule)) :
    turn = .caller ∧ schedule.now = 0 := by
  simp only [Session.new, Schedule.next?, Schedule.empty, Schedule.soon, Schedule.beginRound,
    List.nil_append, List.takeWhile_nil, List.map_nil, List.append_nil, Option.some.injEq,
    Prod.mk.injEq] at popped
  exact ⟨popped.1.symm, popped.2 ▸ rfl⟩

/-- Turn by turn, a session does what its shadow does. -/
theorem step
    (accompanied : Accompanied linting precedence requests session shadow)
    (stepped : session.step? = some later) :
    ∃ next, shadow.step? = some next ∧ Accompanied linting precedence requests later next := by
  obtain ⟨⟨turn, schedule⟩, popped, rfl⟩ := Option.map_eq_some_iff.mp stepped
  obtain ⟨shadows, awake⟩ := accompanied
  have shadowPopped := popped
  rw [shadows.schedule_eq] at shadowPopped
  refine ⟨_, Option.map_eq_some_iff.mpr ⟨_, shadowPopped, rfl⟩, ?_⟩
  have rescheduled : Shadows requests (linting.view 0) { session with schedule := schedule }
      { shadow with schedule := schedule } := { shadows with schedule_eq := rfl }
  have behind : turn ≠ .caller → session.caller = .free → session.requests = [] := by
    intro other free
    refine (awake free).resolve_right fun begun => ?_
    subst begun
    exact other (next?_new popped).1
  cases turn with
  | linting turn =>
    have taken : (session.linting.take schedule.now turn).unobserved =
        (shadow.linting.take schedule.now turn).unobserved := by
      rw [unobserved_take, shadows.linting_eq, ← unobserved_take]
    refine ⟨rescheduled.follow taken, fun free => .inl ?_⟩
    simp only [Session.take, caller_follow, requests_follow] at free ⊢
    exact behind SessionTurn.noConfusion free
  | wakeCaller =>
    refine ⟨{ rescheduled with schedule_eq := rfl }, fun free => .inl ?_⟩
    exact behind SessionTurn.noConfusion free
  | caller =>
    have resumed := rescheduled.resume fun free left => by
      obtain rfl := (awake free).resolve_left left
      rw [view, (next?_new popped).2]
      rfl
    exact ⟨resumed, fun free => .inl (requests_resume_of_free free)⟩

theorem goOn
    (accompanied : Accompanied linting precedence requests session shadow)
    (turns : Nat) :
    Accompanied linting precedence requests (session.goOn turns) (shadow.goOn turns) := by
  induction turns generalizing session shadow with
  | zero => exact accompanied
  | succ turns ih =>
    cases stepped : session.step? with
    | some later =>
      obtain ⟨next, steps, still⟩ := accompanied.step stepped
      rw [goOn_succ_of_step stepped, goOn_succ_of_step steps]
      exact ih still
    | none =>
      have stuck : shadow.step? = none := by
        rw [Session.step?, Option.map_eq_none_iff] at stepped ⊢
        rw [← accompanied.schedule_eq]
        exact stepped
      rw [goOn_of_isExhausted stepped, goOn_of_isExhausted stuck]
      exact accompanied

end Accompanied

/-- When all requests have been answered, no more answers are given. -/
theorem answers_goOn_of_empty
    {session : Session}
    (free : session.caller = .free)
    (empty : session.requests = [])
    (turns : Nat) :
    (session.goOn turns).answers = session.answers ∧ (session.goOn turns).requests = [] := by
  have kept := @goOn_induction (fun later =>
    later.caller = .free ∧ later.requests = [] ∧ later.answers = session.answers) ?_ session
    ⟨free, empty, rfl⟩ turns
  · exact ⟨kept.2.2, kept.2.1⟩
  · rintro earlier later ⟨free, empty, same⟩ stepped
    obtain ⟨⟨turn, schedule⟩, popped, rfl⟩ := Option.map_eq_some_iff.mp stepped
    cases turn with
    | linting turn =>
      simp only [Session.take, caller_follow, requests_follow, answers_follow, free, empty, same,
        and_self]
    | caller =>
      simp only [Session.take, resume, catchUp, free, empty, makeRequests, same, if_true, and_self]
    | wakeCaller => exact ⟨free, empty, same⟩

variable {document : Document} {rules : RuleSet} {timeout? : Option Binary64} {precision : Precision}
  {precedence : Precedence SessionTurn}

/-- The views behind the answers of a session are those that it has given after sufficiently many
turns, and that of a deadlock. -/
theorem exists_operationViews_answersOf
    (distinct : rules.keys.Nodup)
    (timely : (Linting.new document rules timeout? precision).toSetting.IsTimely)
    (requests : List Request) :
    ∃ taken, ∀ more,
      let last := (new (.new document rules timeout? precision) precedence requests).goOn (taken + more)
      operationViews requests (answersOf (.new document rules timeout? precision) precedence requests) =
        operationViews requests last.answers.reverse ++
          if last.requests.filter Request.isOperation = [] then [] else [last.view] := by
  have accompanied := (Accompanied.new (.new document rules timeout? precision) precedence requests).goOn
  cases answered_answersOf distinct timely requests with
  | complete taken empty same =>
    have free : ((new (.new document rules timeout? precision) precedence requests).goOn taken).caller =
        .free := by
      by_contra busy
      obtain ⟨next, rest, left, -⟩ := (accompanied taken).busy busy
      rw [empty] at left
      contradiction
    refine ⟨taken, fun more => ?_⟩
    obtain ⟨answers_eq, left⟩ := answers_goOn_of_empty free empty more
    rw [goOn_goOn] at answers_eq left
    simp only [same, answers_eq, left, List.filter_nil, if_true, List.append_nil]
  | stuck taken exhausted waiting unanswered same =>
    obtain ⟨next, rest, left, operates⟩ := (accompanied taken).busy (by simp [waiting])
    have asked := (accompanied taken).asked left
    rw [← List.length_reverse] at asked
    refine ⟨taken, fun more => ?_⟩
    have last_eq := goOn_of_isExhausted exhausted more
    rw [goOn_goOn] at last_eq
    simp only [last_eq, same, left, Session.answer, List.reverse_cons, operationViews_append asked,
      operates, if_true, List.filter_cons_of_pos operates, reduceCtorEq, if_false]
    rfl

end Session

/-- Observers do not matter.  In two sessions with the same rules, the same bound on idleness and the
same operations, which differ in what is subscribed and when: after any number of turns, the same can
be seen of both lintings, and the same could be seen behind each operation that has been answered.
Behind a subscription, the same can be seen as before.  So the answers of both sessions to their
operations come with the same views, if their turns suffice. -/
theorem views_independent_of_observers
    {document : Document}
    {rules : RuleSet}
    {timeout? : Option Binary64}
    {precision : Precision}
    {precedence : Precedence SessionTurn}
    {requests others : List Request}
    (same : requests.filter Request.isOperation = others.filter Request.isOperation) :
    let linting := Linting.new document rules timeout? precision
    let session := Session.new linting precedence requests
    let other := Session.new linting precedence others
    (∀ turns, (session.goOn turns).view = (other.goOn turns).view ∧
        operationViews requests (session.goOn turns).answers.reverse =
          operationViews others (other.goOn turns).answers.reverse) ∧
      (∀ (turns index : Nat) (request : Request), requests[index]? = some request →
        request.isOperation = false → index < (session.goOn turns).answers.length →
          let views := viewsBehind session.view (session.goOn turns).answers.reverse
          views[index + 1]? = views[index]?) ∧
      (rules.keys.Nodup → linting.toSetting.IsTimely →
        operationViews requests (Session.answersOf linting precedence requests) =
          operationViews others (Session.answersOf linting precedence others)) := by
  intro linting session other
  have own := (Session.Accompanied.new linting precedence requests).goOn
  have foreign := (Session.Accompanied.new linting precedence others).goOn
  rw [← same] at foreign
  have views : ∀ turns, (session.goOn turns).view = (other.goOn turns).view ∧
      operationViews requests (session.goOn turns).answers.reverse =
        operationViews others (other.goOn turns).answers.reverse := by
    intro turns
    exact ⟨(own turns).view_eq.trans (foreign turns).view_eq.symm,
      (own turns).views_eq.trans (foreign turns).views_eq.symm⟩
  refine ⟨views, fun turns => (own turns).still, fun distinct timely => ?_⟩
  obtain ⟨taken, ownViews⟩ :=
    Session.exists_operationViews_answersOf distinct timely requests
  obtain ⟨otherTaken, otherViews⟩ :=
    Session.exists_operationViews_answersOf distinct timely others
  have ownLast := ownViews otherTaken
  have otherLast := otherViews taken
  rw [Nat.add_comm otherTaken] at otherLast
  have left_eq := (own (taken + otherTaken)).operations_eq.trans
    (foreign (taken + otherTaken)).operations_eq.symm
  obtain ⟨view_eq, views_eq⟩ := views (taken + otherTaken)
  rw [ownLast, otherLast]
  simp only [session, other, linting] at left_eq view_eq views_eq
  rw [left_eq, view_eq, views_eq]

/-- Operations among which observers of both milestones are subscribed: one that subscribes two others,
handles what becomes of the first one, which is called at once, and fails; and a late one. -/
def observedRequests : List Request :=
  let failing := Conduct.fail (.of "ValueError" ["no"])
  [.subscribe .started ⟨"first",
      .subscribe .started "second" failing fun _ =>
        .subscribe .done "third" failing fun _ => .fail (.of "TypeError" ["neither"])⟩,
    .start, .misdirected "later", .advance 1, .wait, .subscribe .done ⟨"late", .leave⟩]

theorem views_beside_failing_observers :
    let linting := Linting.new default
      [("sleeper", [.custom ⟨[], some [.sleep 2 [] false, .act (.report .warn "awake" .nothing)]⟩])]
      none .binary64
    observedRequests.filter Request.isOperation = [.start, .advance 1, .wait] ∧
      (operationViews observedRequests (Session.answersOf linting .creation observedRequests)).length = 3 ∧
      operationViews observedRequests (Session.answersOf linting .creation observedRequests) =
        operationViews [.start, .advance 1, .wait]
          (Session.answersOf linting .creation [.start, .advance 1, .wait]) := by
  refine ⟨rfl, by decide +kernel, ?_⟩
  exact (@views_independent_of_observers default _ none .binary64 .creation observedRequests
    [.start, .advance 1, .wait] rfl).2.2 (by decide) (.inl rfl)

end Linting
end MarkupLint
