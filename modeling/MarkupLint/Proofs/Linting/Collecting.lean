import MarkupLint.Proofs.Linting.Showing

/-!
# The diagnostics of a session

Only members add to the diagnostics of a session, each under its own rule and index, and the end of
the run freezes them.  Diagnostics that are the same for each instance differ only in how those of
different instances of one rule are interleaved, which neither the counts nor the state depend on.
-/

namespace MarkupLint
namespace Linting

section

variable {property : Collection → Prop} {linting : Linting}

/-- What diagnostics of a member keep of a collection holds when the member is followed. -/
theorem diagnostics_follow
    {progress : Progress}
    {index : Nat}
    {member : Member}
    {course : Member.Course}
    (accept : ∀ collection diagnostic, diagnostic.key = member.key → property collection →
      property (collection.accept diagnostic))
    (known : progress.linting.members[index]? = some member)
    (conduct : member.Conduct course)
    (holds : property progress.linting.diagnostics) :
    property (progress.follow index course).linting.diagnostics := by
  have folded : ∀ (diagnostics : List Diagnostic) (collection : Collection),
      (∀ diagnostic ∈ diagnostics, diagnostic.key = member.key) → property collection →
        property (diagnostics.foldl Collection.accept collection) := by
    intro diagnostics
    induction diagnostics with
    | nil => exact fun _ _ holds => holds
    | cons diagnostic rest ih =>
      intro collection own holds
      apply ih _ (fun other held => own other (List.mem_cons_of_mem _ held))
      exact accept collection diagnostic (own diagnostic List.mem_cons_self) holds
  rw [(Progress.followed_follow known conduct).diagnostics_eq]
  refine folded _ _ (fun diagnostic held => ?_) holds
  obtain ⟨rule_eq, index_eq⟩ := conduct.attributed diagnostic (Member.mem_delivered.mp held)
  rw [Diagnostic.key, Member.key, rule_eq, index_eq]

/-- What freezing and diagnostics of members keep of a collection holds when a turn is taken. -/
theorem diagnostics_take
    (freeze : ∀ collection, property collection → property collection.freeze)
    (accept : ∀ collection diagnostic, diagnostic.key ∈ linting.keys → property collection →
      property (collection.accept diagnostic))
    (holds : property linting.diagnostics)
    (now : Rat)
    (turn : Turn) :
    property (linting.take now turn).linting.diagnostics := by
  suffices kept : (linting.take now turn).linting.members.map Member.key = linting.keys ∧
      property (linting.take now turn).linting.diagnostics from kept.2
  refine @take_induction (fun members collection => members.map Member.key = linting.keys ∧
    property collection) linting now turn ?_ ?_ ?_ ⟨rfl, holds⟩
  · exact fun members collection kept => ⟨kept.1, freeze collection kept.2⟩
  · intro progress index kept
    refine ⟨(keys_invoke progress index now).trans kept.1, ?_⟩
    cases progress.invoked index now with
    | nobody unknown same =>
      rw [same]
      exact kept.2
    | member member record known same =>
      rw [same]
      refine @diagnostics_follow property (progress.emit (.invoked index record)) index member _
        (fun collection diagnostic own => accept collection diagnostic ?_) known
        (member.conduct_invoke progress.linting.toSetting now) kept.2
      rw [own, ← kept.1]
      exact List.mem_map_of_mem (List.mem_of_getElem? known)
  · intro index own member known
    have conduct := member.conduct_take linting.toSetting now own
    have followed := @Progress.followed_follow (.start linting) index member _ known conduct
    refine ⟨followed.keys_eq known conduct, ?_⟩
    refine @diagnostics_follow property (.start linting) index member _
      (fun collection diagnostic own => accept collection diagnostic ?_) known conduct holds
    rw [own]
    exact List.mem_of_getElem? (getElem?_keys known)

end

/-- What freezing and diagnostics of members keep of a collection holds as a session goes on. -/
theorem Session.diagnostics_goOn
    {property : Collection → Prop}
    {session : Session}
    (freeze : ∀ collection, property collection → property collection.freeze)
    (accept : ∀ collection diagnostic, diagnostic.key ∈ session.linting.keys →
      property collection → property (collection.accept diagnostic))
    (holds : property session.linting.diagnostics)
    (turns : Nat) :
    property (session.goOn turns).linting.diagnostics := by
  suffices kept : (session.goOn turns).linting.keys = session.linting.keys ∧
      property (session.goOn turns).linting.diagnostics from kept.2
  refine @goOn_induction (fun later => later.linting.keys = session.linting.keys ∧
    property later.linting.diagnostics) (fun later next kept stepped => ?_) session ⟨rfl, holds⟩ turns
  refine @linting_step later (fun linting => linting.keys = session.linting.keys ∧
    property linting.diagnostics) next ?_ ?_ ?_ stepped kept
  · intro linting kept
    refine ⟨(keys_start linting).trans kept.1, ?_⟩
    simp only [Linting.start]
    split
    · exact kept.2
    · simpa using kept.2
  · intro linting milestone observer kept
    refine ⟨(keys_subscribe linting milestone observer).trans kept.1, ?_⟩
    simpa [Linting.subscribe] using kept.2
  · intro linting now turn kept
    refine ⟨(keys_take linting now turn).trans kept.1, ?_⟩
    refine diagnostics_take freeze (fun collection diagnostic own => ?_) kept.2 now turn
    rw [kept.1] at own
    exact accept collection diagnostic own

end Linting
end MarkupLint
