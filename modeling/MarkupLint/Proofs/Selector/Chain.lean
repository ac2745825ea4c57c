import MarkupLint.Proofs.Text.Words
import MarkupLint.Selector.Select
import MarkupLint.Xml.Character

/-!
# Chains of names

A selector whose words are names and stars is read as a chain of descendant steps, one for each word.
The names of markup are among the names that may be written so.
-/

namespace MarkupLint

/-- Sets of code points without common members. -/
theorem Text.CodeRanges.holds_eq_false_of_disjoint
    {first second : CodeRanges}
    (disjoint : ∀ range ∈ first, ∀ other ∈ second, range.2 < other.1 ∨ other.2 < range.1)
    {char : Char}
    (held : first.holds char = true) :
    second.holds char = false := by
  rw [← Bool.not_eq_true, holds_iff]
  rintro ⟨other, other_mem, low, high⟩
  obtain ⟨range, range_mem, lower, upper⟩ := (first.holds_iff char).mp held
  rcases disjoint range range_mem other other_mem with before | behind <;> omega

namespace Selector

/-- Whether a character has no meaning of its own inside the names of paths. -/
def isPlain (char : Char) : Bool := !(Token.endsName char || [':', '{', '}'].contains char)

/-- Whether a character may begin a name: it begins no operator and no literal either. -/
def beginsName (char : Char) : Bool := isPlain char && !(['.', '*', '\'', '"'].contains char)

/-- Whether a word is a name that stands for itself in paths. -/
def isName : List Char → Bool
  | [] => false
  | first :: rest => beginsName first && rest.all isPlain

/-- Whether a word of a selector is a step of a chain: a name or a star. -/
def isStep (word : List Char) : Bool := word == ['*'] || isName word

/-- What a step of a chain demands of a name. -/
def stepTest (word : List Char) : NameTest :=
  if word = ['*'] then .any else .named (String.ofList word)

/-- The tests of the words of a selector. -/
def chain (selector : String) : List NameTest := (Text.words selector.toList).map stepTest

/-- Name characters of markup are no blanks. -/
theorem isBlank_of_isNameChar {char : Char} (isNameChar : Xml.isNameChar char = true) :
    Text.isBlank char = false := by
  rw [← Bool.not_eq_true]
  intro blank
  have apart : ∀ ranges ∈ [Xml.letterRanges, Xml.digitRanges, Xml.combiningRanges,
      Xml.extenderRanges], ranges.holds char = false := by
    intro ranges known
    refine Text.CodeRanges.holds_eq_false_of_disjoint ?_ blank
    revert ranges
    decide +kernel
  simp only [List.forall_mem_cons] at apart
  obtain ⟨noLetter, noDigit, noCombining, noExtender, -⟩ := apart
  simp only [Xml.isNameChar, Xml.isNameStart, noLetter, noDigit, noCombining, noExtender,
    Bool.or_false, Bool.or_eq_true, beq_iff_eq] at isNameChar
  rcases isNameChar with (rfl | rfl) | rfl <;> exact absurd blank (by decide)

theorem contains_eq_false
    {chars : List Char}
    {isMember : Char → Bool}
    {char : Char}
    (apart : chars.any isMember = false)
    (member : isMember char = true) :
    chars.contains char = false := by
  rw [← Bool.not_eq_true, List.contains_iff_mem]
  intro known
  rw [List.any_eq_true.mpr ⟨char, known, member⟩] at apart
  contradiction

theorem isPlain_of_isNameChar {char : Char} (isNameChar : Xml.isNameChar char = true) :
    isPlain char = true := by
  have noEnd : "/[]()@!=".toList.contains char = false :=
    contains_eq_false (by decide) isNameChar
  have noBrace : [':', '{', '}'].contains char = false :=
    contains_eq_false (by decide) isNameChar
  rw [isPlain, Token.endsName, noEnd, isBlank_of_isNameChar isNameChar, noBrace]
  rfl

/-- A name of markup without a prefix is a step. -/
theorem isStep_of_isNameStart
    {first : Char}
    {rest : List Char}
    (begins : Xml.isNameStart first = true)
    (goesOn : ∀ char ∈ rest, Xml.isNameChar char = true) :
    isStep (first :: rest) = true := by
  have noOperator : ['.', '*', '\'', '"'].contains first = false :=
    contains_eq_false (by decide) begins
  have plain := isPlain_of_isNameChar (Xml.isNameChar_of_isNameStart begins)
  have others : rest.all isPlain = true :=
    List.all_eq_true.mpr fun char known => isPlain_of_isNameChar (goesOn char known)
  rw [isStep, isName, beginsName, plain, noOperator, others]
  simp

/-! ## Scanning -/

/-- The token of a step. -/
def stepToken (word : List Char) : Token :=
  if word = ['*'] then .operator "*" else .name (String.ofList word)

/-- Steps, each behind two slashes. -/
def slashed (words : List (List Char)) : List Char := words.flatMap fun word => '/' :: '/' :: word

/-- The tokens of steps, each behind two slashes. -/
def slashedTokens (words : List (List Char)) : List Token :=
  words.flatMap fun word => [.operator "//", stepToken word]

theorem slashed_cons (word : List Char) (words : List (List Char)) :
    slashed (word :: words) = '/' :: '/' :: (word ++ slashed words) := rfl

theorem slashed_eq_nil_or (words : List (List Char)) :
    slashed words = [] ∨ ∃ rest, slashed words = '/' :: rest := by
  cases words with
  | nil => exact .inl rfl
  | cons word words => exact .inr ⟨_, slashed_cons word words⟩

theorem scanFrom_slashes (rounds : Nat) (rest : List Char) :
    Token.scanFrom (rounds + 1) ('/' :: '/' :: rest) =
      .operator "//" :: Token.scanFrom rounds rest := by
  simp [Token.scanFrom, Token.literal?, Token.operator?]

/-- A name ends at a slash and at the end of the path. -/
theorem span_name
    {word behind : List Char}
    (plain : ∀ char ∈ word, isPlain char = true)
    (ends : behind = [] ∨ ∃ rest, behind = '/' :: rest) :
    (word ++ behind).takeWhile (!Token.endsName ·) = word ∧
      (word ++ behind).dropWhile (!Token.endsName ·) = behind := by
  have inside : ∀ char ∈ word, (!Token.endsName char) = true := by
    intro char known
    have isPlain := plain char known
    rw [Selector.isPlain, Bool.not_or, Bool.and_eq_true] at isPlain
    exact isPlain.1
  rw [List.takeWhile_append_of_pos inside, List.dropWhile_append_of_pos inside]
  rcases ends with rfl | ⟨rest, rfl⟩
  · simp
  · have slash : Token.endsName '/' = true := by decide
    simp [slash]

theorem literal?_of_beginsName
    {first : Char}
    (begins : beginsName first = true)
    (rest : List Char) :
    Token.literal? (first :: rest) = none := by
  have noQuote : (first == '\'' || first == '"') = false := by
    rw [← Bool.not_eq_true, Bool.or_eq_true, beq_iff_eq, beq_iff_eq]
    rintro (rfl | rfl) <;> exact absurd begins (by decide)
  rw [Token.literal?, noQuote]
  rfl

theorem operator?_of_beginsName
    {first : Char}
    (begins : beginsName first = true)
    (rest : List Char) :
    Token.operator? (first :: rest) = none := by
  have noOperator : Token.operatorChars.contains first = false :=
    contains_eq_false (by decide) begins
  unfold Token.operator?
  split
  case h_6 char others _ _ _ _ _ same =>
    cases same
    rw [noOperator]
    rfl
  case h_7 => contradiction
  all_goals
    next same =>
      cases same
      exact absurd begins (by decide)

theorem bracedNamespace?_of_beginsName
    {first : Char}
    (begins : beginsName first = true)
    (rest : List Char) :
    Token.bracedNamespace? (first :: rest) = none := by
  unfold Token.bracedNamespace?
  split
  · next same =>
    cases same
    exact absurd begins (by decide)
  · rfl

/-- All characters of a name are plain, and the first one may begin it. -/
theorem exists_of_isName {word : List Char} (isName : isName word = true) :
    ∃ first rest, word = first :: rest ∧ beginsName first = true ∧
      ∀ char ∈ word, isPlain char = true := by
  cases word with
  | nil => contradiction
  | cons first rest =>
    rw [Selector.isName, Bool.and_eq_true, List.all_eq_true] at isName
    obtain ⟨begins, plain⟩ := isName
    refine ⟨first, rest, rfl, begins, List.forall_mem_cons.mpr ⟨?_, plain⟩⟩
    rw [beginsName, Bool.and_eq_true] at begins
    exact begins.1

theorem not_mem_of_isName
    {word : List Char}
    {char : Char}
    (isName : isName word = true)
    (meant : isPlain char = false) :
    char ∉ word := by
  intro known
  obtain ⟨first, rest, -, -, plain⟩ := exists_of_isName isName
  rw [plain char known] at meant
  contradiction

theorem name?_of_isName
    {word behind : List Char}
    (isName : isName word = true)
    (ends : behind = [] ∨ ∃ rest, behind = '/' :: rest) :
    Token.name? (word ++ behind) = some (word, behind) := by
  obtain ⟨first, rest, rfl, begins, plain⟩ := exists_of_isName isName
  obtain ⟨taken, left⟩ := span_name plain ends
  simp only [Token.name?, List.cons_append, bracedNamespace?_of_beginsName begins] at taken left ⊢
  rw [taken, left]

theorem ofName_of_isName {word : List Char} (isName : isName word = true) :
    Token.ofName word = .name (String.ofList word) := by
  have noColon : word.contains ':' = false := by
    rw [← Bool.not_eq_true, List.contains_iff_mem]
    exact not_mem_of_isName isName (by decide)
  rw [Token.ofName, noColon, Bool.and_false, if_neg Bool.false_ne_true]

theorem scanFrom_step
    {word behind : List Char}
    (step : isStep word = true)
    (ends : behind = [] ∨ ∃ rest, behind = '/' :: rest)
    (rounds : Nat) :
    Token.scanFrom (rounds + 1) (word ++ behind) = stepToken word :: Token.scanFrom rounds behind := by
  rw [isStep, Bool.or_eq_true, beq_iff_eq] at step
  rcases step with rfl | isName
  · have star : Token.operator? ('*' :: behind) = some ("*", behind) := rfl
    rw [List.cons_append, List.nil_append, Token.scanFrom, star]
    rfl
  · have named : word ≠ ['*'] := by
      rintro rfl
      exact absurd isName (by decide)
    obtain ⟨first, rest, rfl, begins, -⟩ := exists_of_isName isName
    have name_eq := name?_of_isName isName ends
    rw [List.cons_append] at name_eq ⊢
    rw [Token.scanFrom, literal?_of_beginsName begins, operator?_of_beginsName begins, name_eq,
      stepToken, if_neg named, ← ofName_of_isName isName]

/-- A chain is cut into two tokens for each step. -/
theorem scanFrom_slashed
    {words : List (List Char)}
    (steps : ∀ word ∈ words, isStep word = true)
    {rounds : Nat}
    (enough : (slashed words).length ≤ rounds) :
    Token.scanFrom rounds (slashed words) = slashedTokens words := by
  induction words generalizing rounds with
  | nil => cases rounds <;> rfl
  | cons word words ih =>
    obtain ⟨step, steps⟩ := List.forall_mem_cons.mp steps
    rw [slashed_cons] at enough ⊢
    simp only [List.length_cons, List.length_append] at enough
    obtain ⟨rounds, rfl⟩ : ∃ more, rounds = more + 1 + 1 := ⟨rounds - 2, by omega⟩
    rw [scanFrom_slashes, scanFrom_step step (slashed_eq_nil_or words), ih steps (by omega)]
    rfl

/-! ## Reading -/

theorem ofText_of_isName {word : List Char} (isName : isName word = true) :
    NameTest.ofText (String.ofList word) = .named (String.ofList word) := by
  have noOpening := not_mem_of_isName isName (by decide : isPlain '{' = false)
  have noClosing := not_mem_of_isName isName (by decide : isPlain '}' = false)
  have noSuffix : ['}', '*'].isSuffixOf word = false := by
    rw [← Bool.not_eq_true, List.isSuffixOf_iff_suffix]
    exact fun ends => noClosing (ends.subset List.mem_cons_self)
  have noPrefix : ['{', '}'].isPrefixOf word = false := by
    rw [← Bool.not_eq_true, List.isPrefixOf_iff_prefix]
    exact fun begins => noOpening (begins.subset List.mem_cons_self)
  unfold NameTest.ofText
  rw [String.toList_ofList]
  split
  · exact absurd List.mem_cons_self noOpening
  · exact absurd List.mem_cons_self noOpening
  · exact absurd List.mem_cons_self noOpening
  · rw [noSuffix, noPrefix]
    rfl

theorem readDescendant_step
    {word : List Char}
    (step : isStep word = true)
    (rest : List Token) :
    readDescendant (stepToken word :: rest) = .ok (some (.descendant (stepTest word)), rest) := by
  rw [isStep, Bool.or_eq_true, beq_iff_eq] at step
  rcases step with rfl | isName
  · rfl
  · have named : word ≠ ['*'] := by
      rintro rfl
      exact absurd isName (by decide)
    rw [stepToken, stepTest, if_neg named, if_neg named, ← ofText_of_isName isName]
    rfl

/-- Two tokens of a chain are read as one step. -/
theorem readSteps_slashedTokens
    {words : List (List Char)}
    (steps : ∀ word ∈ words, isStep word = true)
    {rounds : Nat}
    (enough : words.length ≤ rounds) :
    readSteps rounds (slashedTokens words) =
      .ok (words.map fun word => some (.descendant (stepTest word))) := by
  induction words generalizing rounds with
  | nil => cases rounds <;> rfl
  | cons word words ih =>
    obtain ⟨step, steps⟩ := List.forall_mem_cons.mp steps
    obtain ⟨rounds, rfl⟩ : ∃ more, rounds = more + 1 :=
      Nat.exists_eq_succ_of_ne_zero (by rintro rfl; contradiction)
    have noSlash : ((slashedTokens words).head? == some (.operator "/")) = false := by
      cases words <;> rfl
    have later := ih steps (Nat.le_of_succ_le_succ enough)
    have first : readStep (.operator "//") (stepToken word :: slashedTokens words) =
        .ok (some (.descendant (stepTest word)), slashedTokens words) :=
      readDescendant_step step (slashedTokens words)
    show readSteps (rounds + 1) (.operator "//" :: stepToken word :: slashedTokens words) = _
    simp only [readSteps, Token.next, first, bind, Except.bind, noSlash, Bool.false_eq_true, if_false,
      later, pure, Except.pure, List.map_cons]

/-- A path that begins with a point goes on from the same element. -/
theorem readSteps_point
    {tokens : List Token}
    {steps : List (Option Step)}
    {rounds : Nat}
    (noSlash : (tokens.head? == some (.operator "/")) = false)
    (read : readSteps rounds tokens = .ok steps) :
    readSteps (rounds + 1) (.operator "." :: tokens) = .ok (some .self :: steps) := by
  have point : readStep (.operator ".") tokens = .ok (some .self, tokens) := rfl
  simp only [readSteps, Token.next, point, bind, Except.bind, noSlash, Bool.false_eq_true, if_false,
    read, pure, Except.pure]

theorem slashes_intercalate
    {words : List (List Char)}
    (nonempty : words ≠ []) :
    '/' :: '/' :: List.intercalate "//".toList words = slashed words := by
  induction words with
  | nil => contradiction
  | cons word words ih =>
    cases words with
    | nil => simp [List.intercalate, slashed]
    | cons next rest =>
      rw [slashed_cons, ← ih (List.cons_ne_nil next rest)]
      simp [List.intercalate]

theorem ne_of_isStep
    {first char : Char}
    {word : List Char}
    (step : isStep (first :: word) = true)
    (different : char ≠ '*')
    (begins : beginsName char = false) :
    first ≠ char := by
  rintro rfl
  rw [isStep, Bool.or_eq_true, beq_iff_eq] at step
  rcases step with star | isName
  · exact different (List.cons.inj star).1
  · obtain ⟨front, rest, same, frontBegins, -⟩ := exists_of_isName isName
    rw [← (List.cons.inj same).1, begins] at frontBegins
    contradiction

/-- A selector that is a chain is written as a path of descendant steps. -/
theorem pathText_of_steps
    {selector : List Char}
    (steps : ∀ word ∈ Text.words selector, isStep word = true)
    (nonempty : Text.words selector ≠ []) :
    pathText selector = '.' :: slashed (Text.words selector) := by
  rcases Text.trim_eq_nil_or selector with empty | ⟨first, rest, word, others, trimmed, words_eq⟩
  · rw [← Text.words_trim, empty] at nonempty
    contradiction
  · have step := steps (first :: word) (by simp [words_eq])
    rw [← slashes_intercalate nonempty, ← Text.words_trim, pathText, trimmed]
    split
    · next same => exact absurd (List.cons.inj same).1 (ne_of_isStep step (by decide) (by decide))
    · next same => exact absurd (List.cons.inj same).1 (ne_of_isStep step (by decide) (by decide))
    · rfl

/-- A step holds no slash. -/
theorem slash_not_mem_of_isStep {word : List Char} (step : isStep word = true) : '/' ∉ word := by
  rw [isStep, Bool.or_eq_true, beq_iff_eq] at step
  rcases step with rfl | isName
  · decide
  · exact not_mem_of_isName isName (by decide)

theorem ne_nil_of_isStep {word : List Char} (step : isStep word = true) : word ≠ [] := by
  rintro rfl
  contradiction

/-- A chain does not end with a slash. -/
theorem getLast?_slashed
    {words : List (List Char)}
    (steps : ∀ word ∈ words, isStep word = true) :
    (('.' :: slashed words).getLast? == some '/') = false := by
  rcases List.eq_nil_or_concat' words with rfl | ⟨earlier, last, rfl⟩
  · decide
  · have step := steps last (by simp)
    have split : '.' :: slashed (earlier ++ [last]) = ('.' :: slashed earlier ++ ['/', '/']) ++ last := by
      simp [slashed]
    rw [split, List.getLast?_append_of_ne_nil _ (ne_nil_of_isStep step), ← Bool.not_eq_true,
      beq_iff_eq]
    exact fun ends => slash_not_mem_of_isStep step (List.mem_of_getLast? ends)

theorem scan_slashed
    {words : List (List Char)}
    (steps : ∀ word ∈ words, isStep word = true) :
    Token.scan ('.' :: slashed words) = .operator "." :: slashedTokens words := by
  have point : Token.operator? ('.' :: slashed words) = some (".", slashed words) := by
    cases words <;> rfl
  rw [Token.scan, List.length_cons, Token.scanFrom, point]
  exact congrArg (Token.operator "." :: ·) (scanFrom_slashed steps le_rfl)

theorem length_le_slashedTokens (words : List (List Char)) :
    words.length ≤ (slashedTokens words).length := by
  induction words with
  | nil => rfl
  | cons word words ih => exact Nat.succ_le_succ (Nat.le_succ_of_le ih)

theorem mapM_some {α : Type} (items : List α) : (items.map some).mapM id = some items := by
  induction items with
  | nil => rfl
  | cons item rest ih => simp [ih]

/-- A selector that is a chain is read as a descendant step for each word. -/
theorem read_of_steps
    {selector : List Char}
    (steps : ∀ word ∈ Text.words selector, isStep word = true)
    (nonempty : Text.words selector ≠ []) :
    Path.read (pathText selector) =
      .ok (.self :: (Text.words selector).map fun word => .descendant (stepTest word)) := by
  rw [pathText_of_steps steps nonempty]
  generalize Text.words selector = words at steps
  have noSlash : ((slashedTokens words).head? == some (.operator "/")) = false := by
    cases words <;> rfl
  have read := readSteps_point noSlash (readSteps_slashedTokens steps (length_le_slashedTokens words))
  have all : (some Step.self :: words.map fun word => some (Step.descendant (stepTest word))) =
      (Step.self :: words.map fun word => Step.descendant (stepTest word)).map some := by
    rw [List.map_cons, List.map_map]
    rfl
  rw [all] at read
  simp only [Path.read, getLast?_slashed steps, Bool.false_eq_true, if_false, scan_slashed steps,
    List.length_cons, read, bind, Except.bind, mapM_some, pure, Except.pure]

end Selector
end MarkupLint
