import MarkupLint.Proofs.Selector.Inside
import MarkupLint.Proofs.Traversal

/-!
# Which selectors are refused

A selector is refused at the first place behind whole steps where no step stands.  The refusal names the
selector, whatever the document is, unless no step begins with the token at this place or the place is a
position with too many digits.
-/

namespace MarkupLint
namespace Selector

/-! ## Reading up to a place -/

/-- What is left behind a step: a slash in front is left out. -/
def skipSlash (tokens : List Token) : List Token :=
  if tokens.head? == some (.operator "/") then tokens.drop 1 else tokens

/-- Reading whole steps from the front of some tokens leaves others. -/
inductive Leads : List Token → List Token → Prop
  | refl (tokens : List Token) : Leads tokens tokens
  | step {token : Token} {rest behind final : List Token} {step : Option Step} :
    readStep token rest = .ok (step, behind) →
    Leads (skipSlash behind) final →
    Leads (token :: rest) final

/-- Whether a step may begin with a token. -/
def Token.isStart : Token → Bool
  | .operator text => ["*", ".", "..", "//", "["].contains text
  | .literal _ => false
  | _ => true

/-- The text of a token. -/
def Token.text : Token → String
  | .operator text => text
  | .literal text => text
  | .name text => text
  | .prefixed label => label
  | .blank => ""

/-- A place where a path is refused without its selector being named. -/
inductive Escapes (tokens : List Token) : Fault → Prop
  | misplaced {token : Token} {rest : List Token} :
    Leads tokens (token :: rest) →
    token.isStart = false →
    Escapes tokens (.misplaced token.text)
  /-- A condition that is nothing but a position, blanks aside. -/
  | number {inner behind : List Token} {name : String} {digits : Nat} :
    Leads tokens (.operator "[" :: (inner ++ .operator "]" :: behind)) →
    inner.filter (· != .blank) = [.name name] →
    Condition.isInteger name = true →
    Text.integer name.toList = .error (.tooLong digits) →
    Escapes tokens (.numberTooLong digits)

/-- Whether a refusal for a fault names the selector. -/
def Fault.isNamed : Fault → Bool
  | .misplaced _ => false
  | .numberTooLong _ => false
  | _ => true

theorem Refusal.failure_of_isNamed {refusal : Refusal} (named : refusal.fault.isNamed = true) :
    refusal.failure =
      .ofValue s!"Invalid selector '{refusal.selector}': {refusal.fault.message}" := by
  obtain ⟨selector, fault⟩ := refusal
  cases fault
  case misplaced => contradiction
  case numberTooLong => contradiction
  all_goals rfl

/-! ## Conditions -/

theorem digitLimit_lt_of_tooLong
    {text : List Char}
    {digits : Nat}
    (tooLong : Text.integer text = .error (.tooLong digits)) :
    Text.digitLimit < digits := by
  unfold Text.integer at tooLong
  dsimp only at tooLong
  split at tooLong
  · cases tooLong
  · split at tooLong
    · next long =>
      cases tooLong
      exact long
    · cases tooLong

namespace Condition

theorem ofPosition_eq_error_iff {numeral : String} {fault : Fault} (escapes : fault.isNamed = false) :
    ofPosition numeral = .error fault ↔
      ∃ digits, fault = .numberTooLong digits ∧
        Text.integer numeral.toList = .error (.tooLong digits) := by
  unfold ofPosition
  split
  · next digits known => simp [known, eq_comm]
  · next known =>
    refine iff_of_false ?_ (by simp [known])
    rintro ⟨⟩
    contradiction
  · next number known =>
    refine iff_of_false ?_ (by simp [known])
    split
    · rintro ⟨⟩
      contradiction
    · simp

theorem isNamed_of_ofOffset
    {numeral : String}
    {fault : Fault}
    (refused : ofOffset numeral = .error fault) :
    fault.isNamed = true := by
  unfold ofOffset at refused
  split at refused
  · cases refused
    rfl
  · split at refused
    · cases refused
      rfl
    · contradiction

theorem isNamed_of_ofFunction
    {name : String}
    {meaning : Except Fault Condition}
    (named : ∀ fault, meaning = .error fault → fault.isNamed = true)
    {fault : Fault}
    (refused : ofFunction name meaning = .error fault) :
    fault.isNamed = true := by
  unfold ofFunction at refused
  split at refused
  · exact named fault refused
  · cases refused
    rfl

/-- A condition is refused without the selector being named if it is a position with too many
digits. -/
theorem ofTokens_eq_error_iff {tokens : List Token} {fault : Fault} (escapes : fault.isNamed = false) :
    ofTokens tokens = .error fault ↔
      ∃ name digits, tokens = [.name name] ∧ isInteger name = true ∧
        fault = .numberTooLong digits ∧ Text.integer name.toList = .error (.tooLong digits) := by
  have unnamed : ¬fault.isNamed = true := by simp [escapes]
  unfold ofTokens
  split
  case h_8 name =>
    split
    · next isInteger => simp [ofPosition_eq_error_iff escapes, isInteger]
    · next other => simp [other]
  case h_6 | h_7 =>
    refine iff_of_false ?_ (by simp)
    split
    · rintro ⟨⟩
      contradiction
    · simp
  case h_9 | h_10 =>
    exact iff_of_false (fun refused => unnamed (isNamed_of_ofFunction (by simp) refused)) (by simp)
  case h_11 =>
    exact iff_of_false (fun refused => unnamed
      (isNamed_of_ofFunction (fun _ => isNamed_of_ofOffset) refused)) (by simp)
  case h_12 =>
    refine iff_of_false (fun refused => unnamed (isNamed_of_ofFunction ?_ refused)) (by simp)
    rintro _ ⟨⟩
    rfl
  case h_13 =>
    refine iff_of_false ?_ ?_
    · rintro ⟨⟩
      contradiction
    · rintro ⟨name, -, same, -⟩
      exact ‹∀ name, tokens = [.name name] → False› name same
  all_goals simp

end Condition

/-! ## Steps -/

/-- Whether a token may stand inside a condition: it neither ends the condition nor has a prefix. -/
def Token.isInside : Token → Bool
  | .operator "]" => false
  | .prefixed _ => false
  | _ => true

/-- The tokens that a condition is read from, blanks left out, behind those already read. -/
def gathered (read inner : List Token) : List Token :=
  read.reverse ++ inner.filter (· != .blank)

theorem exists_append_cons_iff
    {token stop : Token}
    {rest : List Token}
    {property : List Token → Prop} :
    (∃ inner behind, token :: rest = inner ++ stop :: behind ∧ property inner) ↔
      token = stop ∧ property [] ∨
        ∃ inner behind, rest = inner ++ stop :: behind ∧ property (token :: inner) := by
  constructor
  · rintro ⟨_ | ⟨first, inner⟩, behind, same, held⟩
    · cases same
      exact .inl ⟨rfl, held⟩
    · cases same
      exact .inr ⟨inner, behind, rfl, held⟩
  · rintro (⟨rfl, held⟩ | ⟨inner, behind, rfl, held⟩)
    · exact ⟨[], rest, rfl, held⟩
    · exact ⟨token :: inner, behind, rfl, held⟩

/-- A condition is refused without the selector being named if the tokens up to its closing bracket
are. -/
theorem readCondition_eq_error_iff
    {read tokens : List Token}
    {fault : Fault}
    (escapes : fault.isNamed = false) :
    readCondition read tokens = .error fault ↔
      ∃ inner behind, tokens = inner ++ .operator "]" :: behind ∧
        (∀ token ∈ inner, token.isInside = true) ∧
        Condition.ofTokens (gathered read inner) = .error fault := by
  -- What stands inside goes over to what has been read, token by token, without the blanks.
  induction tokens generalizing read with
  | nil => simp [readCondition]
  | cons token rest ih =>
    rw [exists_append_cons_iff]
    unfold readCondition
    split
    · contradiction
    · next label others same =>
      cases same
      refine iff_of_false ?_ (by simp [Token.isInside])
      rintro ⟨⟩
      contradiction
    · next others same =>
      cases same
      simp [bind_eq_error_iff, pure, Except.pure, gathered, Token.isInside]
    · next others same =>
      cases same
      rw [ih]
      simp [gathered, Token.isInside]
    · next others plain goesOn filled same =>
      cases same
      have inside : token.isInside = true := by
        unfold Token.isInside
        split
        · exact (goesOn rfl).elim
        · exact (plain _ rfl).elim
        · rfl
      have shown : token ≠ .blank := filled
      have goesOn : token ≠ .operator "]" := goesOn
      rw [ih]
      simp [gathered, inside, shown, goesOn]

theorem isInside_of_mem
    {inner : List Token}
    {name : String}
    (only : inner.filter (· != .blank) = [.name name])
    {token : Token}
    (known : token ∈ inner) :
    token.isInside = true := by
  by_cases blank : token = .blank
  · rw [blank]
    rfl
  · have held : token ∈ inner.filter (· != .blank) := List.mem_filter.mpr ⟨known, by simpa using blank⟩
    rw [only, List.mem_singleton] at held
    rw [held]
    rfl

theorem isNamed_of_readDescendant
    {tokens : List Token}
    {fault : Fault}
    (refused : readDescendant tokens = .error fault) :
    fault.isNamed = true := by
  unfold readDescendant at refused
  rcases bind_eq_error_iff.mp refused with prefixed | ⟨front, -, refused⟩
  · unfold Token.next at prefixed
    split at prefixed <;> cases prefixed
    rfl
  · split at refused <;> cases refused
    rfl

/-- A step is refused without the selector being named if no step begins with the token, or if it is a
position with too many digits. -/
theorem readStep_eq_error_iff
    {token : Token}
    {rest : List Token}
    {fault : Fault}
    (escapes : fault.isNamed = false) :
    readStep token rest = .error fault ↔
      token.isStart = false ∧ fault = .misplaced token.text ∨
        token = .operator "[" ∧ ∃ inner behind name digits,
          rest = inner ++ .operator "]" :: behind ∧ inner.filter (· != .blank) = [.name name] ∧
            Condition.isInteger name = true ∧ fault = .numberTooLong digits ∧
            Text.integer name.toList = .error (.tooLong digits) := by
  unfold readStep
  split
  case h_1 | h_2 | h_3 | h_4 | h_5 => simp [Token.isStart]
  case h_6 =>
    refine iff_of_false (fun refused => ?_) (by simp [Token.isStart])
    rw [isNamed_of_readDescendant refused] at escapes
    contradiction
  case h_7 =>
    rw [readCondition_eq_error_iff escapes]
    simp only [Condition.ofTokens_eq_error_iff escapes]
    constructor
    · rintro ⟨inner, behind, same, -, name, digits, only, numeral⟩
      exact .inr ⟨trivial, inner, behind, name, digits, same, only, numeral⟩
    · rintro (⟨noStart, -⟩ | ⟨-, inner, behind, name, digits, same, only, numeral⟩)
      · simp [Token.isStart] at noStart
      · exact ⟨inner, behind, same, fun _ known => isInside_of_mem only known, name, digits, only,
          numeral⟩
  case h_8 text star point points slashes bracket =>
    have noStart : (Token.operator text).isStart = false := by
      simpa [Token.isStart] using ⟨star, point, points, slashes, bracket⟩
    constructor
    · rintro ⟨⟩
      exact .inl ⟨noStart, rfl⟩
    · rintro (⟨-, rfl⟩ | ⟨same, -⟩)
      · rfl
      · exact (bracket (Token.operator.inj same)).elim
  case h_9 text =>
    constructor
    · rintro ⟨⟩
      exact .inl ⟨rfl, rfl⟩
    · rintro (⟨-, rfl⟩ | ⟨⟨⟩, -⟩)
      rfl
  case h_10 =>
    refine iff_of_false ?_ (by simp [Token.isStart])
    rintro ⟨⟩
    contradiction

theorem length_le_of_readCondition
    {read tokens behind : List Token}
    {step : Option Step}
    (known : readCondition read tokens = .ok (step, behind)) :
    behind.length ≤ tokens.length := by
  induction tokens generalizing read with
  | nil =>
    cases known
    exact Nat.le_refl 0
  | cons token rest ih =>
    unfold readCondition at known
    split at known
    · contradiction
    · cases known
    · next same =>
      cases same
      obtain ⟨condition, -, known⟩ := bind_eq_ok_iff.mp known
      cases known
      exact Nat.le_succ _
    · next same =>
      cases same
      exact Nat.le_succ_of_le (ih known)
    · next same =>
      cases same
      exact Nat.le_succ_of_le (ih known)

theorem eq_cons_of_next
    {tokens rest : List Token}
    {token : Token}
    (next : Token.next tokens = .ok (some (token, rest))) :
    tokens = token :: rest := by
  unfold Token.next at next
  split at next <;> cases next
  rfl

theorem length_le_of_readDescendant
    {tokens behind : List Token}
    {step : Option Step}
    (known : readDescendant tokens = .ok (step, behind)) :
    behind.length ≤ tokens.length := by
  obtain ⟨front, next, known⟩ := bind_eq_ok_iff.mp known
  split at known
  · cases known
    exact Nat.zero_le _
  all_goals
    cases known <;> rw [eq_cons_of_next next] <;> exact Nat.le_succ _

theorem length_le_of_readStep
    {token : Token}
    {rest behind : List Token}
    {step : Option Step}
    (known : readStep token rest = .ok (step, behind)) :
    behind.length ≤ rest.length := by
  unfold readStep at known
  split at known
  case h_6 => exact length_le_of_readDescendant known
  case h_7 => exact length_le_of_readCondition known
  all_goals cases known <;> exact Nat.le_refl _

theorem length_skipSlash_le (tokens : List Token) : (skipSlash tokens).length ≤ tokens.length := by
  unfold skipSlash
  split
  · exact List.length_drop ▸ Nat.sub_le _ _
  · exact Nat.le_refl _

/-! ## Paths -/

theorem readSteps_cons (rounds : Nat) (token : Token) (rest : List Token) :
    readSteps (rounds + 1) (token :: rest) =
      (readStep token rest >>= fun read =>
        readSteps rounds (skipSlash read.2) >>= fun steps => .ok (read.1 :: steps)) := by
  cases token <;> rfl

/-- A path is refused at a place behind whole steps. -/
theorem readSteps_eq_error_iff
    {rounds : Nat}
    {tokens : List Token}
    {fault : Fault}
    (enough : tokens.length ≤ rounds) :
    readSteps rounds tokens = .error fault ↔
      ∃ token rest, Leads tokens (token :: rest) ∧ readStep token rest = .error fault := by
  induction rounds generalizing tokens with
  | zero =>
    cases List.length_eq_zero_iff.mp (Nat.le_zero.mp enough)
    refine iff_of_false (by simp [readSteps]) ?_
    rintro ⟨_, _, ⟨⟩, _⟩
  | succ rounds ih =>
    cases tokens with
    | nil =>
      refine iff_of_false (fun refused => by cases refused) ?_
      rintro ⟨_, _, ⟨⟩, _⟩
    | cons token rest =>
      have short : ∀ {step behind}, readStep token rest = .ok (step, behind) →
          (skipSlash behind).length ≤ rounds := fun {_ behind} read =>
        ((length_skipSlash_le behind).trans (length_le_of_readStep read)).trans
          (Nat.le_of_succ_le_succ enough)
      rw [readSteps_cons]
      constructor
      · intro refused
        rcases bind_eq_error_iff.mp refused with here | ⟨⟨step, behind⟩, read, refused⟩
        · exact ⟨token, rest, .refl _, here⟩
        · rcases bind_eq_error_iff.mp refused with later | ⟨_, _, ⟨⟩⟩
          obtain ⟨last, others, leads, refused⟩ := (ih (short read)).mp later
          exact ⟨last, others, .step read leads, refused⟩
      · rintro ⟨last, others, leads, refused⟩
        rw [bind_eq_error_iff]
        cases leads with
        | refl => exact .inl refused
        | step read leads =>
          have later := (ih (short read)).mpr ⟨last, others, leads, refused⟩
          exact .inr ⟨_, read, bind_eq_error_iff.mpr (.inl later)⟩

/-- The tokens of the path in a text. -/
def Path.tokens (text : List Char) : List Token :=
  Token.scan (if text.getLast? == some '/' then text ++ ['*'] else text)

/-- A path is refused without its selector being named just at such a place. -/
theorem Path.read_eq_error_iff
    {text : List Char}
    {fault : Fault}
    (escapes : fault.isNamed = false) :
    Path.read text = .error fault ↔ Escapes (Path.tokens text) fault := by
  have path : Path.read text = .error fault ↔
      readSteps (Path.tokens text).length (Path.tokens text) = .error fault := by
    refine bind_eq_error_iff.trans (or_iff_left ?_)
    rintro ⟨steps, -, refused⟩
    split at refused <;> cases refused
    contradiction
  rw [path, readSteps_eq_error_iff (Nat.le_refl _)]
  simp only [readStep_eq_error_iff escapes]
  constructor
  · rintro ⟨token, rest, leads, ⟨noStart, rfl⟩ | ⟨rfl, inner, behind, name, digits, rfl, held⟩⟩
    · exact .misplaced leads noStart
    · obtain ⟨only, isInteger, rfl, tooLong⟩ := held
      exact .number leads only isInteger tooLong
  · rintro (⟨leads, noStart⟩ | ⟨leads, only, isInteger, tooLong⟩)
    · exact ⟨_, _, leads, .inl ⟨noStart, rfl⟩⟩
    · exact ⟨_, _, leads, .inr ⟨rfl, _, _, _, _, rfl, only, isInteger, rfl, tooLong⟩⟩

/-- What escapes is not named. -/
theorem Escapes.isNamed_eq_false
    {tokens : List Token}
    {fault : Fault}
    (escapes : Escapes tokens fault) :
    fault.isNamed = false := by
  cases escapes <;> rfl

theorem Escapes.failure
    {tokens : List Token}
    {refusal : Refusal}
    (escapes : Escapes tokens refusal.fault) :
    (∃ token, refusal.failure = (.of "KeyError" [token])) ∨
      ∃ digits, Text.digitLimit < digits ∧ refusal.failure = .ofValue (Text.tooManyDigits digits) := by
  obtain ⟨selector, fault⟩ := refusal
  cases escapes with
  | misplaced leads noStart => exact .inl ⟨_, rfl⟩
  | number leads only isInteger tooLong =>
    exact .inr ⟨_, digitLimit_lt_of_tooLong tooLong, rfl⟩

end Selector

namespace Document

open Selector

/-- A selector selects from every document, or it is refused for every document in the same way.  The
refusal is a wrong value that names the selector, unless whole steps in front of the path lead to a token
with which no step begins, or to a position with too many digits.  How many steps there is room for is
left open: each step of a path asks the one before it, one call inside the other. -/
theorem select_or_refuse (selector : String) :
    ((∀ document : Document, ∃ nodes, document.select selector = .ok nodes) ∧
        ∀ fault, ¬Escapes (Path.tokens (pathText selector.toList)) fault) ∨
      ∃ refusal, (∀ document : Document, document.select selector = .error refusal) ∧
        ((refusal.failure = .ofValue s!"Invalid selector '{selector}': {refusal.fault.message}" ∧
            ∀ fault, ¬Escapes (Path.tokens (pathText selector.toList)) fault) ∨
          (Escapes (Path.tokens (pathText selector.toList)) refusal.fault ∧
            ((∃ token, refusal.failure = (.of "KeyError" [token])) ∨
              ∃ digits, Text.digitLimit < digits ∧
                refusal.failure = .ofValue (Text.tooManyDigits digits)))) := by
  cases read : Path.read (pathText selector.toList) with
  | ok steps =>
    refine .inl ⟨fun document => ⟨_, by rw [select, read]⟩, fun fault escapes => ?_⟩
    rw [(Path.read_eq_error_iff escapes.isNamed_eq_false).mpr escapes] at read
    contradiction
  | error fault =>
    refine .inr ⟨⟨selector, fault⟩, fun document => by rw [select, read], ?_⟩
    cases named : fault.isNamed with
    | true =>
      refine .inl ⟨Refusal.failure_of_isNamed named, fun other escapes => ?_⟩
      rw [(Path.read_eq_error_iff escapes.isNamed_eq_false).mpr escapes] at read
      cases read
      rw [escapes.isNamed_eq_false] at named
      contradiction
    | false =>
      have escapes := (Path.read_eq_error_iff named).mp read
      exact .inr ⟨escapes, escapes.failure⟩

/-- A path that asks for an attribute as if it were a step is refused, and the refusal names neither the
selector nor that it is invalid. -/
theorem refused_without_name_of_single :
    Document.read "<a/>" none = .ok single ∧
      ∃ refusal, single.select "./@id" = .error refusal ∧
        refusal.failure = (.of "KeyError" ["@"]) ∧
        ∀ message, refusal.failure ≠ .ofValue message := by
  refine ⟨read_single, ⟨"./@id", .misplaced "@"⟩, ?_, rfl, ?_⟩
  · have read : Path.read (pathText "./@id".toList) = .error (.misplaced "@") := by decide
    rw [select, read]
  · intro message same
    exact absurd (congrArg Failure.kind same) (show "KeyError" ≠ "ValueError" by decide)

end Document
end MarkupLint
