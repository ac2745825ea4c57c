import MarkupLint.Json.Basic
import MarkupLint.Proofs.Text.Quoted
import MarkupLint.Toml.Quoted
import Mathlib.Algebra.Group.Nat.Defs
import Mathlib.Data.Option.Basic

/-!
# Reading JSON

A reader of the JSON format.  Blanks may stand between all parts of a text.  The characters of a quoted
text stand for themselves or are escaped, and what they stand for is a sequence of units of sixteen bits,
two of which make up a character beyond sixteen bits.  Numbers with a fraction or an exponent and truth
values, which are no values here, are refused.

Whatever a value is made of, it is read back from what is written of it, whatever follows that cannot
make a number go on.  And no control character but the line feed is ever written.
-/

namespace MarkupLint
namespace Json

/-- A reader takes a part off the front of a text. -/
abbrev Reader (α : Type) := List Char → Option (α × List Char)

/-- Whether a character may stand between the parts of a text. -/
def isBlank (char : Char) : Bool := char == ' ' || char == '\n' || char == '\r' || char == '\t'

/-- The text without the blanks at its front. -/
def skipBlanks (chars : List Char) : List Char := chars.dropWhile isBlank

/-- What follows a mark, which may stand behind blanks. -/
def readMark (mark : Char) (chars : List Char) : Option (List Char) :=
  match skipBlanks chars with
  | char :: rest => if char = mark then some rest else none
  | [] => none

/-! ## Quoted texts -/

/-- The units of sixteen bits that make up a character. -/
def unitsOf (char : Char) : List Nat :=
  if char.toNat < 0x10000 then [char.toNat]
  else
    let beyond := char.toNat - 0x10000
    [0xd800 + beyond / 0x400, 0xdc00 + beyond % 0x400]

/-- The character that two units make up together, if they are halves of one. -/
def pairOf? (high low : Nat) : Option Char :=
  if 0xd800 ≤ high ∧ high < 0xdc00 ∧ 0xdc00 ≤ low ∧ low < 0xe000 then
    some (Char.ofNat (0x10000 + (high - 0xd800) * 0x400 + (low - 0xdc00)))
  else none

/-- The character that a unit makes up alone, if it is no half of one. -/
def singleOf? (unit : Nat) : Option Char := if unit.isValidChar then some (Char.ofNat unit) else none

/-- The characters that units make up. -/
def charsOf? : List Nat → Option (List Char)
  | [] => some []
  | [unit] => (singleOf? unit).map ([·])
  | unit :: next :: rest =>
    match pairOf? unit next with
    | some char => (charsOf? rest).map (char :: ·)
    | none => (singleOf? unit).bind fun char => (charsOf? (next :: rest)).map (char :: ·)

/-- The unit that four digits give. -/
def unitOf? (digits : List Char) : Option Nat :=
  (digits.mapM Toml.hexValue?).map (·.foldl (fun number digit => 16 * number + digit) 0)

/-- What characters behind a backslash stand for. -/
def shortMeanings : List (Char × Char) := ('/', '/') :: shortEscapes.map Prod.swap

/-- The units of a text behind its opening quote. -/
def readUnits : Reader (List Nat)
  | [] => none
  | '"' :: rest => some ([], rest)
  | '\\' :: 'u' :: first :: second :: third :: fourth :: rest =>
    (unitOf? [first, second, third, fourth]).bind fun unit =>
      (readUnits rest).map fun read => (unit :: read.1, read.2)
  | '\\' :: short :: rest =>
    (shortMeanings.lookup short).bind fun char =>
      (readUnits rest).map fun read => (unitsOf char ++ read.1, read.2)
  | char :: rest =>
    if char < ' ' || char == '\\' then none
    else (readUnits rest).map fun read => (unitsOf char ++ read.1, read.2)

/-- A text behind its opening quote. -/
def readText : Reader String := fun chars =>
  (readUnits chars).bind fun read => (charsOf? read.1).map fun text => (String.ofList text, read.2)

/-! ## Numbers -/

/-- Whether a character makes a number go on behind its digits. -/
def isFractional (char : Char) : Bool := char == '.' || char == 'e' || char == 'E'

/-- A whole number without sign.  Only the number zero begins with a zero. -/
def readNatural : Reader Nat := fun chars =>
  let digits := chars.takeWhile Char.isDigit
  let rest := chars.dropWhile Char.isDigit
  if digits.isEmpty || (digits.head? == some '0' && digits.length != 1) ||
      rest.head?.any isFractional then none
  else some (Nat.ofDigitChars 10 digits 0, rest)

/-- A whole number. -/
def readInteger : Reader Int
  | '-' :: rest => (readNatural rest).map fun read => (-read.1, read.2)
  | chars => (readNatural chars).map fun read => (read.1, read.2)

/-! ## Values -/

/-- Items with commas between them up to a mark, in at most the given number of rounds. -/
def readItems {α : Type} (readItem : Reader α) (closing : Char) : Nat → Reader (List α)
  | 0, _ => none
  | rounds + 1, chars =>
    (readItem chars).bind fun read =>
      match skipBlanks read.2 with
      | ',' :: rest =>
        (readItems readItem closing rounds rest).map fun behind => (read.1 :: behind.1, behind.2)
      | char :: rest => if char = closing then some ([read.1], rest) else none
      | [] => none

/-- Items up to a mark, of which there may be none. -/
def readEnclosed {α : Type} (readItem : Reader α) (closing : Char) : Reader (List α) := fun chars =>
  match readMark closing chars with
  | some rest => some ([], rest)
  | none => readItems readItem closing chars.length chars

/-- A key with a value. -/
def readMember (readValue : Reader Json) : Reader (String × Json) := fun chars => do
  let rest ← readMark '"' chars
  let (key, rest) ← readText rest
  let rest ← readMark ':' rest
  let (value, rest) ← readValue rest
  return ((key, value), rest)

/-- A value that is less deep than given. -/
def readValue : Nat → Reader Json
  | 0, _ => none
  | depth + 1, chars =>
    match skipBlanks chars with
    | 'n' :: 'u' :: 'l' :: 'l' :: rest => some (null, rest)
    | '"' :: rest => (readText rest).map fun read => (Json.text read.1, read.2)
    | '[' :: rest =>
      (readEnclosed (readValue depth) ']' rest).map fun read => (array read.1, read.2)
    | '\x7b' :: rest =>
      (readEnclosed (readMember (readValue depth)) '\x7d' rest).map fun read =>
        (object read.1, read.2)
    | rest => (readInteger rest).map fun read => (integer read.1, read.2)

/-- The value that makes up a text. -/
def read? (text : String) : Option Json :=
  match readValue (text.length + 1) text.toList with
  | some (value, rest) => if (skipBlanks rest).isEmpty then some value else none
  | none => none

/-! ## Quoted texts are read back -/

theorem hexValue?_digitChar : ∀ digit < 16, Toml.hexValue? digit.digitChar = some digit := by
  decide

theorem unitOf?_append (digits : List Char) {digit : Nat} (small : digit < 16) :
    unitOf? (digits ++ [digit.digitChar]) =
      (unitOf? digits).map fun number => 16 * number + digit := by
  simp only [unitOf?, List.mapM_append, List.mapM_cons, List.mapM_nil,
    hexValue?_digitChar digit small]
  cases digits.mapM Toml.hexValue? <;> simp [List.foldl_append]

/-- Padded digits end with the last digit of the number. -/
theorem hexDigits_succ (width number : Nat) :
    Text.hexDigits (width + 2) number =
      Text.hexDigits (width + 1) (number / 16) ++ [(number % 16).digitChar] := by
  unfold Text.hexDigits
  simp only
  rcases Nat.lt_or_ge number 16 with small | large
  · rw [Nat.toDigits_of_lt_base small, Nat.div_eq_of_lt small, Nat.mod_eq_of_lt small,
      Nat.toDigits_zero]
    simp [List.replicate_succ']
  · rw [Nat.toDigits_of_base_le (by decide) large]
    simp

theorem unitOf?_hexDigits {width number : Nat} (fits : number < 16 ^ (width + 1)) :
    (Text.hexDigits (width + 1) number).length = width + 1 ∧
      unitOf? (Text.hexDigits (width + 1) number) = some number := by
  induction width generalizing number with
  | zero =>
    rw [Text.hexDigits, Nat.toDigits_of_lt_base (by omega)]
    have alone := unitOf?_append [] (show number < 16 by omega)
    exact ⟨rfl, by simpa [unitOf?] using alone⟩
  | succ width ih =>
    obtain ⟨length_eq, unit_eq⟩ := @ih (number / 16) (by omega)
    rw [hexDigits_succ, unitOf?_append _ (Nat.mod_lt _ (by decide)), unit_eq, List.length_append,
      length_eq, Option.map_some, Nat.div_add_mod]
    exact ⟨rfl, rfl⟩

/-- An escaped unit is read as the unit. -/
theorem readUnits_escapedUnit {unit : Nat} (fits : unit < 0x10000) (rest : List Char) :
    readUnits (escapedUnit unit ++ rest) =
      (readUnits rest).map fun read => (unit :: read.1, read.2) := by
  obtain ⟨length_eq, unit_eq⟩ := @unitOf?_hexDigits 3 unit fits
  match digits_eq : Text.hexDigits 4 unit, length_eq with
  | [first, second, third, fourth], _ =>
    rw [escapedUnit, digits_eq]
    rw [digits_eq] at unit_eq
    simp only [List.cons_append, List.nil_append, readUnits, unit_eq, Option.bind_some]

/-- A short escape is read as the character that it stands for. -/
theorem readUnits_short {char short : Char} (found : shortEscapes.lookup char = some short)
    (rest : List Char) :
    readUnits ('\\' :: short :: rest) =
      (readUnits rest).map fun read => (unitsOf char ++ read.1, read.2) := by
  obtain ⟨before, behind, escapes_eq, -⟩ := List.lookup_eq_some_iff.mp found
  have listed : (char, short) ∈ shortEscapes := by simp [escapes_eq]
  simp only [shortEscapes, List.mem_cons, Prod.mk.injEq, List.not_mem_nil, or_false] at listed
  obtain ⟨rfl, rfl⟩ | ⟨rfl, rfl⟩ | ⟨rfl, rfl⟩ | ⟨rfl, rfl⟩ | ⟨rfl, rfl⟩ | ⟨rfl, rfl⟩ | ⟨rfl, rfl⟩ :=
    listed <;> rfl

/-- A common character that has no short escape is read as itself. -/
theorem readUnits_common {char : Char} (plain : shortEscapes.lookup char = none)
    (common : ' ' ≤ char) (rest : List Char) :
    readUnits (char :: rest) =
      (readUnits rest).map fun read => (unitsOf char ++ read.1, read.2) := by
  have quote_ne : char ≠ '"' := by
    rintro rfl
    simp [shortEscapes] at plain
  have backslash_ne : char ≠ '\\' := by
    rintro rfl
    simp [shortEscapes] at plain
  rw [readUnits]
  · simp [backslash_ne, Char.not_lt.mpr common]
  · exact quote_ne
  · rintro _ _ _ _ _ rfl
    exact absurd rfl backslash_ne
  · rintro _ _ rfl
    exact absurd rfl backslash_ne

/-- A written character is read as the units that make it up. -/
theorem readUnits_writtenChar (char : Char) (rest : List Char) :
    readUnits (writtenChar char ++ rest) =
      (readUnits rest).map fun read => (unitsOf char ++ read.1, read.2) := by
  unfold writtenChar
  split
  · next short found => exact readUnits_short found rest
  · next plain =>
    split
    · next common =>
      simp only [Bool.and_eq_true, decide_eq_true_eq] at common
      exact readUnits_common plain common.1 rest
    · split
      · next single =>
        rw [readUnits_escapedUnit single, unitsOf, if_pos single]
        rfl
      · next double =>
        have valid : char.toNat.isValidChar := char.valid
        have bounded : char.toNat < 0x110000 := by
          unfold Nat.isValidChar at valid
          omega
        rw [List.append_assoc, readUnits_escapedUnit (by omega), readUnits_escapedUnit (by omega),
          unitsOf, if_neg double, Option.map_map]
        rfl

theorem readUnits_flatMap (chars rest : List Char) :
    readUnits (chars.flatMap writtenChar ++ rest) =
      (readUnits rest).map fun read => (chars.flatMap unitsOf ++ read.1, read.2) := by
  induction chars with
  | nil => simp
  | cons char chars ih =>
    rw [List.flatMap_cons, List.append_assoc, readUnits_writtenChar, ih, Option.map_map]
    simp [Function.comp_def]

theorem charsOf?_single {unit : Nat} (valid : unit.isValidChar) (rest : List Nat) :
    charsOf? (unit :: rest) = (charsOf? rest).map (Char.ofNat unit :: ·) := by
  cases rest with
  | nil => simp [charsOf?, singleOf?, valid]
  | cons next rest =>
    have no_half : pairOf? unit next = none := by
      unfold Nat.isValidChar at valid
      exact if_neg (by omega)
    simp [charsOf?, no_half, singleOf?, valid]

/-- The units of characters make up the characters. -/
theorem charsOf?_flatMap_unitsOf (chars : List Char) :
    charsOf? (chars.flatMap unitsOf) = some chars := by
  induction chars with
  | nil => rfl
  | cons char chars ih =>
    have valid : char.toNat.isValidChar := char.valid
    rw [List.flatMap_cons, unitsOf]
    split
    · rw [List.singleton_append, charsOf?_single valid, ih, Char.ofNat_toNat]
      rfl
    · next double =>
      have code_eq : 0x10000 + (0xd800 + (char.toNat - 0x10000) / 0x400 - 0xd800) * 0x400 +
          (0xdc00 + (char.toNat - 0x10000) % 0x400 - 0xdc00) = char.toNat := by
        omega
      have pair_eq : pairOf? (0xd800 + (char.toNat - 0x10000) / 0x400)
          (0xdc00 + (char.toNat - 0x10000) % 0x400) = some char := by
        unfold Nat.isValidChar at valid
        rw [pairOf?, if_pos (by omega), code_eq, Char.ofNat_toNat]
      simp [charsOf?, pair_eq, ih]

/-- A written text is read, whatever follows it. -/
theorem readText_writtenText (text : String) :
    ∃ behind, (∀ rest, (writtenText text).toList ++ rest = '"' :: (behind ++ rest)) ∧
      ∀ rest, readText (behind ++ rest) = some (text, rest) := by
  refine ⟨text.toList.flatMap writtenChar ++ ['"'], fun rest => ?_, fun rest => ?_⟩
  · simp [writtenText]
  · simp [readText, List.append_assoc, readUnits_flatMap, readUnits, charsOf?_flatMap_unitsOf]

/-! ## Numbers are read back -/

/-- Whether a text does not make a number in front of it go on. -/
def EndsNumber (rest : List Char) : Prop :=
  ∀ char ∈ rest.head?, char.isDigit = false ∧ isFractional char = false

theorem endsNumber_cons {first : Char} {rest : List Char} :
    EndsNumber (first :: rest) ↔ first.isDigit = false ∧ isFractional first = false := by
  simp [EndsNumber]

theorem isDigit_of_mem_decimals {number : Nat} : ∀ char ∈ Nat.toDigits 10 number, char.isDigit :=
  fun _ digit => Nat.isDigit_of_mem_toDigits (by decide) (by decide) digit

theorem eq_zero_of_head?_decimals {number : Nat}
    (leading : (Nat.toDigits 10 number).head? = some '0') : number = 0 := by
  induction number using Nat.strongRecOn with
  | ind number ih =>
    rw [Nat.toDigits_eq_if (by decide)] at leading
    split at leading
    · next small =>
      have digit_eq : number.digitChar = '0' := by simpa using leading
      exact Nat.digitChar_eq_zero.mp digit_eq
    · next large =>
      obtain ⟨first, others, digits_eq⟩ :=
        List.exists_cons_of_ne_nil (Nat.toDigits_ne_nil : Nat.toDigits 10 (number / 10) ≠ [])
      have earlier := ih (number / 10) (by omega) (by simpa [digits_eq] using leading)
      omega

theorem readNatural_decimals (number : Nat) {rest : List Char} (ends : EndsNumber rest) :
    readNatural (Nat.toDigits 10 number ++ rest) = some (number, rest) := by
  have taken : rest.takeWhile Char.isDigit = [] ∧ rest.dropWhile Char.isDigit = rest := by
    cases rest with
    | nil => simp
    | cons char rest => simp [(endsNumber_cons.mp ends).1]
  have plain : ¬ ((Nat.toDigits 10 number).head? = some '0' ∧ (Nat.toDigits 10 number).length ≠ 1) := by
    rintro ⟨leading, long⟩
    rw [eq_zero_of_head?_decimals leading] at long
    exact long rfl
  have whole : rest.head?.any isFractional = false := by
    cases rest with
    | nil => rfl
    | cons char rest => simp [(ends char rfl).2]
  rw [readNatural, List.takeWhile_append_of_pos isDigit_of_mem_decimals,
    List.dropWhile_append_of_pos isDigit_of_mem_decimals, taken.1, taken.2, List.append_nil]
  simp [Nat.toDigits_ne_nil, plain, whole, Nat.ofDigitChars_ten_toDigits]

/-- A written whole number is read. -/
theorem readInteger_decimals (value : Int) {rest : List Char} (ends : EndsNumber rest) :
    readInteger ((toString value).toList ++ rest) = some (value, rest) := by
  cases value with
  | ofNat number =>
    have written_eq : (toString (Int.ofNat number)).toList = Nat.toDigits 10 number := by
      change (Nat.repr number).toList = _
      rw [Nat.repr_eq_ofList_toDigits, String.toList_ofList]
    rw [written_eq, readInteger, readNatural_decimals number ends]
    · rfl
    · intro behind starts
      obtain ⟨first, others, digits_eq⟩ :=
        List.exists_cons_of_ne_nil (Nat.toDigits_ne_nil : Nat.toDigits 10 number ≠ [])
      have digit : first.isDigit := @isDigit_of_mem_decimals number first (by simp [digits_eq])
      rw [digits_eq, List.cons_append, List.cons.injEq] at starts
      rw [starts.1] at digit
      exact absurd digit (by decide)
  | negSucc number =>
    have written_eq : (toString (Int.negSucc number)).toList = '-' :: Nat.toDigits 10 (number + 1) := by
      change ("-" ++ Nat.repr (number + 1)).toList = _
      simp [Nat.repr_eq_ofList_toDigits]
    rw [written_eq, List.cons_append, readInteger, readNatural_decimals _ ends]
    rfl

/-! ## Values are read back -/

/-- What holds of all values if it holds of a value whenever it holds of the values inside. -/
theorem induct_inside {motive : Json → Prop}
    (null : motive .null)
    (integer : ∀ value, motive (.integer value))
    (text : ∀ value, motive (.text value))
    (array : ∀ items, (∀ item ∈ items, motive item) → motive (.array items))
    (object : ∀ members, (∀ member ∈ members, motive member.2) → motive (.object members)) :
    ∀ value, motive value
  | .null => null
  | .integer value => integer value
  | .text value => text value
  | .array items =>
    array items fun item _ => induct_inside null integer text array object item
  | .object members =>
    object members fun member _ => induct_inside null integer text array object member.2
decreasing_by
  · next inside =>
    have smaller := List.sizeOf_lt_of_mem inside
    simp only [Json.array.sizeOf_spec]
    omega
  · next inside =>
    have smaller := List.sizeOf_lt_of_mem inside
    have part : sizeOf member.2 < sizeOf member := by
      cases member
      simp only [Prod.mk.sizeOf_spec]
      omega
    simp only [Json.object.sizeOf_spec]
    omega

theorem writeItems_eq (depth : Nat) (items : List Json) :
    writeItems depth items = items.map (write depth) := by
  induction items with
  | nil => rfl
  | cons item rest ih => rw [writeItems, ih, List.map_cons]

/-- A member as it is written at a depth. -/
def writeMember (depth : Nat) (member : String × Json) : String :=
  writtenText member.1 ++ ": " ++ write depth member.2

theorem writeMembers_eq (depth : Nat) (members : List (String × Json)) :
    writeMembers depth members = members.map (writeMember depth) := by
  induction members with
  | nil => rfl
  | cons member rest ih => rw [writeMembers, ih, List.map_cons, writeMember]

theorem skipBlanks_append {blanks : List Char} (blank : ∀ char ∈ blanks, isBlank char)
    (chars : List Char) : skipBlanks (blanks ++ chars) = skipBlanks chars :=
  List.dropWhile_append_of_pos blank

theorem skipBlanks_cons {char : Char} (solid : isBlank char = false) (rest : List Char) :
    skipBlanks (char :: rest) = char :: rest := by
  simp [skipBlanks, solid]

theorem eq_of_mem_lineStart {depth : Nat} :
    ∀ char ∈ (lineStart depth).toList, char = '\n' ∨ char = ' ' := by
  intro char inside
  have listed : char = '\n' ∨ 2 * depth ≠ 0 ∧ char = ' ' := by simpa [lineStart] using inside
  exact listed.imp_right And.right

theorem isBlank_lineStart {depth : Nat} : ∀ char ∈ (lineStart depth).toList, isBlank char := by
  intro char inside
  obtain rfl | rfl := eq_of_mem_lineStart char inside <;> rfl

/-- Behind blanks, what is no digit. -/
theorem endsNumber_append {blanks : List Char} (blank : ∀ char ∈ blanks, isBlank char)
    {rest : List Char} (ends : EndsNumber rest) : EndsNumber (blanks ++ rest) := by
  cases blanks with
  | nil => exact ends
  | cons char blanks =>
    have listed : char = ' ' ∨ char = '\n' ∨ char = '\r' ∨ char = '\t' := by
      simpa [isBlank, or_assoc] using blank char (by simp)
    refine endsNumber_cons.mpr ?_
    obtain rfl | rfl | rfl | rfl := listed <;> decide

section Enclosed

variable {α : Type} {readItem : Reader α} {written : α → String} {inner outer : String} {closing : Char}

/-- Written items are read up to the mark behind them. -/
theorem readItems_intercalate
    (closes : closing = ']' ∨ closing = '\x7d')
    (blank : ∀ char ∈ outer.toList, isBlank char)
    {items : List α}
    (present : items ≠ [])
    (reads : ∀ item ∈ items, ∀ rest, EndsNumber rest →
      readItem (inner.toList ++ ((written item).toList ++ rest)) = some (item, rest))
    (rest : List Char)
    {rounds : Nat}
    (enough : (String.intercalate ("," ++ inner) (items.map written)).length < rounds) :
    readItems readItem closing rounds
        (inner.toList ++ ((String.intercalate ("," ++ inner) (items.map written)).toList ++
          (outer.toList ++ closing :: rest))) =
      some (items, rest) := by
  induction items generalizing rounds with
  | nil => exact absurd rfl present
  | cons item others ih =>
    obtain ⟨first, behind⟩ := List.forall_mem_cons.mp reads
    obtain ⟨rounds, rfl⟩ := Nat.exists_eq_succ_of_ne_zero (Nat.ne_zero_of_lt enough)
    by_cases last : others = []
    · have ends : EndsNumber (outer.toList ++ closing :: rest) := by
        refine endsNumber_append blank (endsNumber_cons.mpr ?_)
        obtain rfl | rfl := closes <;> decide
      have solid : skipBlanks (outer.toList ++ closing :: rest) = closing :: rest := by
        rw [skipBlanks_append blank, skipBlanks_cons]
        obtain rfl | rfl := closes <;> rfl
      subst last
      rw [List.map_singleton, String.intercalate_singleton, readItems, first _ ends,
        Option.bind_some]
      simp only [solid]
      obtain rfl | rfl := closes <;> rfl
    · have others_ne : others.map written ≠ [] := by simpa using last
      rw [List.map_cons, String.intercalate_cons_of_ne_nil others_ne] at enough ⊢
      have fewer : (String.intercalate ("," ++ inner) (others.map written)).length < rounds := by
        simp only [String.length_append] at enough
        have comma : ",".length = 1 := rfl
        omega
      have ends := fun behind => (@endsNumber_cons ',' behind).mpr (by decide)
      simp only [String.toList_append, List.append_assoc, String.reduceToList, List.cons_append,
        List.nil_append]
      rw [readItems, first _ (ends _), Option.bind_some]
      simp only [skipBlanks_cons (show isBlank ',' = false from rfl)]
      rw [ih last behind fewer, Option.map_some]

/-- Where items are read, the closing mark does not stand in front. -/
theorem readEnclosed_of_readItems
    (refuses : ∀ chars rest, skipBlanks chars = closing :: rest → readItem chars = none)
    {chars : List Char}
    {read : List α × List Char}
    (items_eq : readItems readItem closing chars.length chars = some read) :
    readEnclosed readItem closing chars = some read := by
  rw [readEnclosed]
  split
  · next rest marked =>
    have front : skipBlanks chars = closing :: rest := by
      unfold readMark at marked
      split at marked
      · next char behind skipped =>
        obtain ⟨rfl, rfl⟩ : char = closing ∧ behind = rest := by simpa using marked
        exact skipped
      · exact absurd marked (by simp)
    have refused : readItems readItem closing chars.length chars = none := by
      cases chars.length with
      | zero => rfl
      | succ rounds => rw [readItems, refuses chars rest front, Option.bind_none]
    exact absurd (items_eq.symm.trans refused) (by simp)
  · exact items_eq

/-- Written items between brackets are read behind the opening bracket. -/
theorem readEnclosed_enclosed
    (closes : closing = ']' ∨ closing = '\x7d')
    (refuses : ∀ chars rest, skipBlanks chars = closing :: rest → readItem chars = none)
    {items : List α}
    {depth : Nat}
    (reads : ∀ item ∈ items, ∀ blanks, (∀ char ∈ blanks, isBlank char) → ∀ rest, EndsNumber rest →
      readItem (blanks ++ ((written item).toList ++ rest)) = some (item, rest))
    (opening : String)
    (rest : List Char) :
    ∃ chars,
      (enclosed opening (String.singleton closing) depth (items.map written)).toList ++ rest =
          opening.toList ++ chars ∧
        readEnclosed readItem closing chars = some (items, rest) := by
  have solid : isBlank closing = false := by obtain rfl | rfl := closes <;> rfl
  rw [enclosed]
  split
  · next vacant =>
    obtain rfl : items = [] := by simpa using vacant
    exact ⟨closing :: rest, by simp, by simp [readEnclosed, readMark, skipBlanks_cons solid]⟩
  · next inhabited =>
    have present : items ≠ [] := by simpa using inhabited
    refine ⟨(lineStart (depth + 1)).toList ++
      ((String.intercalate ("," ++ lineStart (depth + 1)) (items.map written)).toList ++
        ((lineStart depth).toList ++ closing :: rest)), by simp, ?_⟩
    refine readEnclosed_of_readItems refuses (readItems_intercalate closes isBlank_lineStart present
      (fun item inside => reads item inside _ isBlank_lineStart) rest ?_)
    simp only [List.length_append, List.length_cons, String.length_toList]
    omega

end Enclosed

theorem readMark_append {blanks : List Char} (blank : ∀ char ∈ blanks, isBlank char)
    {mark : Char} (solid : isBlank mark = false) (rest : List Char) :
    readMark mark (blanks ++ mark :: rest) = some rest := by
  simp [readMark, skipBlanks_append blank, skipBlanks_cons solid]

/-- A value does not begin with the mark behind the items of an array. -/
theorem readValue_closing {chars rest : List Char} (front : skipBlanks chars = ']' :: rest)
    (limit : Nat) : readValue limit chars = none := by
  cases limit with
  | zero => rfl
  | succ limit => simp [readValue, front, readInteger, readNatural]

/-- A member does not begin with the mark behind the members of an object. -/
theorem readMember_closing {chars rest : List Char} (front : skipBlanks chars = '\x7d' :: rest)
    (read : Reader Json) : readMember read chars = none := by
  simp [readMember, readMark, front]

/-- A whole number begins with a sign or a digit. -/
theorem leading_of_readInteger {chars : List Char} {read : Int × List Char}
    (number : readInteger chars = some read) :
    ∃ first rest, chars = first :: rest ∧ (first = '-' ∨ first.isDigit) := by
  cases chars with
  | nil => exact absurd number (by simp [readInteger, readNatural])
  | cons first rest =>
    refine ⟨first, rest, rfl, Classical.byContradiction fun strange => ?_⟩
    obtain ⟨unsigned, no_digit⟩ := not_or.mp strange
    rw [readInteger] at number
    · exact absurd number (by simp [readNatural, no_digit])
    · exact fun _ front => unsigned (List.cons.inj front).1

theorem readValue_of_readInteger {chars : List Char} {read : Int × List Char}
    (number : readInteger chars = some read)
    {blanks : List Char} (blank : ∀ char ∈ blanks, isBlank char) (limit : Nat) :
    readValue (limit + 1) (blanks ++ chars) = some (.integer read.1, read.2) := by
  obtain ⟨first, rest, rfl, leading⟩ := leading_of_readInteger number
  have differs : ∀ char : Char, char ≠ '-' → char.isDigit = false → first ≠ char := by
    rintro char unsigned no_digit rfl
    exact leading.elim unsigned fun digit => by simp [no_digit] at digit
  have solid : isBlank first = false := by
    simp [isBlank, differs ' ', differs '\n', differs '\r', differs '\t']
  rw [readValue, skipBlanks_append blank, skipBlanks_cons solid]
  split
  · next front => exact absurd (List.cons.inj front).1 (differs 'n' (by decide) (by decide))
  · next front => exact absurd (List.cons.inj front).1 (differs '"' (by decide) (by decide))
  · next front => exact absurd (List.cons.inj front).1 (differs '[' (by decide) (by decide))
  · next front => exact absurd (List.cons.inj front).1 (differs '\x7b' (by decide) (by decide))
  · rw [number, Option.map_some]

theorem length_le_intercalate {separator part : String} {parts : List String}
    (inside : part ∈ parts) : part.length ≤ (String.intercalate separator parts).length := by
  induction parts with
  | nil => exact absurd inside (by simp)
  | cons first others ih =>
    by_cases last : others = []
    · subst last
      obtain rfl : part = first := by simpa using inside
      exact Nat.le_of_eq (congrArg String.length String.intercalate_singleton.symm)
    · rw [String.intercalate_cons_of_ne_nil last, String.length_append, String.length_append]
      obtain rfl | behind := List.mem_cons.mp inside
      · omega
      · have shorter := ih behind
        omega

/-- Parts are shorter than what encloses them. -/
theorem length_lt_enclosed {opening closing part : String} {parts : List String} {depth : Nat}
    (inside : part ∈ parts) : part.length < (enclosed opening closing depth parts).length := by
  have present : parts ≠ [] := List.ne_nil_of_mem inside
  have shorter := @length_le_intercalate ("," ++ lineStart (depth + 1)) part parts inside
  have line : 0 < (lineStart (depth + 1)).length := by
    simp only [lineStart, String.length_append, String.length_ofList, List.length_replicate]
    omega
  simp only [enclosed, List.isEmpty_iff, present, if_false, String.length_append]
  omega

theorem length_write_le (depth : Nat) (member : String × Json) :
    (write depth member.2).length ≤ (writeMember depth member).length := by
  simp only [writeMember, String.length_append]
  omega

/-- A written member is read if its value is. -/
theorem readMember_writeMember {limit depth : Nat} {member : String × Json}
    (reads : ∀ blanks, (∀ char ∈ blanks, isBlank char) → ∀ rest, EndsNumber rest →
      readValue limit (blanks ++ ((write depth member.2).toList ++ rest)) = some (member.2, rest))
    {blanks : List Char} (blank : ∀ char ∈ blanks, isBlank char)
    {rest : List Char} (ends : EndsNumber rest) :
    readMember (readValue limit) (blanks ++ ((writeMember depth member).toList ++ rest)) =
      some (member, rest) := by
  obtain ⟨behind, key_eq, key_read⟩ := readText_writtenText member.1
  have colon := fun chars =>
    readMark_append (List.forall_mem_nil _) (show isBlank ':' = false from rfl) chars
  have value_read := reads [' '] (List.forall_mem_singleton.mpr rfl) rest ends
  simp only [List.nil_append, List.singleton_append] at colon value_read
  rw [writeMember]
  simp only [String.toList_append, List.append_assoc, String.reduceToList, List.cons_append,
    List.nil_append, key_eq]
  rw [readMember, readMark_append blank rfl]
  simp [key_read, colon, value_read]

/-- A value is read back from what is written of it, whatever follows. -/
theorem readValue_write (value : Json) :
    ∀ {depth limit : Nat}, (value.write depth).length < limit →
      ∀ blanks, (∀ char ∈ blanks, isBlank char) → ∀ rest, EndsNumber rest →
        readValue limit (blanks ++ ((value.write depth).toList ++ rest)) = some (value, rest) := by
  -- What is written of an item is shorter than what it is enclosed in, so one round less is enough.
  induction value using induct_inside with
  | null =>
    intro depth limit bound blanks blank rest _
    obtain ⟨limit, rfl⟩ := Nat.exists_eq_succ_of_ne_zero (Nat.ne_zero_of_lt bound)
    rw [write, show "null".toList ++ rest = 'n' :: 'u' :: 'l' :: 'l' :: rest by simp, readValue,
      skipBlanks_append blank, skipBlanks_cons rfl]
    rfl
  | integer value =>
    intro depth limit bound blanks blank rest ends
    obtain ⟨limit, rfl⟩ := Nat.exists_eq_succ_of_ne_zero (Nat.ne_zero_of_lt bound)
    exact readValue_of_readInteger (readInteger_decimals value ends) blank limit
  | text value =>
    intro depth limit bound blanks blank rest _
    obtain ⟨limit, rfl⟩ := Nat.exists_eq_succ_of_ne_zero (Nat.ne_zero_of_lt bound)
    obtain ⟨behind, text_eq, text_read⟩ := readText_writtenText value
    rw [write, text_eq, readValue, skipBlanks_append blank, skipBlanks_cons rfl]
    simp only [text_read, Option.map_some]
  | array items ih =>
    intro depth limit bound blanks blank rest _
    obtain ⟨limit, rfl⟩ := Nat.exists_eq_succ_of_ne_zero (Nat.ne_zero_of_lt bound)
    rw [write, writeItems_eq] at bound ⊢
    have reads := fun item (inside : item ∈ items) =>
      ih item inside (Nat.lt_of_lt_of_le (length_lt_enclosed (List.mem_map_of_mem inside))
        (Nat.le_of_lt_succ bound))
    obtain ⟨chars, chars_eq, read⟩ := readEnclosed_enclosed (.inl rfl)
      (fun _ _ front => readValue_closing front limit) reads "[" rest
    change (enclosed "[" "]" _ _).toList ++ rest = '[' :: chars at chars_eq
    rw [chars_eq, readValue, skipBlanks_append blank, skipBlanks_cons rfl]
    simp only [read, Option.map_some]
  | object members ih =>
    intro depth limit bound blanks blank rest _
    obtain ⟨limit, rfl⟩ := Nat.exists_eq_succ_of_ne_zero (Nat.ne_zero_of_lt bound)
    rw [write, writeMembers_eq] at bound ⊢
    have reads := fun member (inside : member ∈ members) blanks blank rest ends =>
      @readMember_writeMember limit (depth + 1) member
        (ih member inside (Nat.lt_of_le_of_lt (length_write_le depth.succ member)
          (Nat.lt_of_lt_of_le (length_lt_enclosed (List.mem_map_of_mem inside))
            (Nat.le_of_lt_succ bound)))) blanks blank rest ends
    obtain ⟨chars, chars_eq, read⟩ := readEnclosed_enclosed (.inr rfl)
      (fun _ _ front => readMember_closing front (readValue limit)) reads "\x7b" rest
    change (enclosed "\x7b" "\x7d" _ _).toList ++ rest = '\x7b' :: chars at chars_eq
    rw [chars_eq, readValue, skipBlanks_append blank, skipBlanks_cons rfl]
    simp only [read, Option.map_some]

/-- A document is read back. -/
theorem read?_document (value : Json) : read? (value.document ++ "\n") = some value := by
  have ends : EndsNumber ['\n'] := endsNumber_cons.mpr (by decide)
  have bound : (value.write 0).length < (value.write 0 ++ "\n").length + 1 := by
    rw [String.length_append]
    omega
  have read := readValue_write value bound [] (List.forall_mem_nil _) ['\n'] ends
  rw [List.nil_append] at read
  rw [read?, document, String.toList_append, show "\n".toList = ['\n'] by simp, read]
  rfl

example : read? "[\n  -10,\n  \"\\ud83d\\ude00\\n\"\n]\n" =
    some (.array [.integer (-10), .text "😀\n"]) := by
  rfl

/-! ## Common characters -/

/-- Whether a character is the line feed or a printable one of seven bits. -/
def IsCommon (char : Char) : Prop := char = '\n' ∨ ' ' ≤ char ∧ char ≤ '~'

instance (char : Char) : Decidable (IsCommon char) :=
  inferInstanceAs (Decidable (char = '\n' ∨ ' ' ≤ char ∧ char ≤ '~'))

theorem isCommon_of_all {text : String} (all : (text.toList.all fun char => IsCommon char) = true) :
    ∀ char ∈ text.toList, IsCommon char :=
  fun char inside => of_decide_eq_true (List.all_eq_true.mp all char inside)

theorem isCommon_escapedUnit (unit : Nat) : ∀ char ∈ escapedUnit unit, IsCommon char := by
  have digits : ∀ digit < 16, IsCommon (Nat.digitChar digit) := by decide
  rw [escapedUnit, List.forall_mem_cons, List.forall_mem_cons]
  refine ⟨by decide, by decide, fun char inside => ?_⟩
  obtain ⟨digit, small, rfl⟩ := Text.exists_digit_of_mem_hexDigits char inside
  exact digits digit small

theorem isCommon_writtenChar (char : Char) : ∀ written ∈ writtenChar char, IsCommon written := by
  unfold writtenChar
  split
  · next short found =>
    obtain ⟨before, behind, escapes_eq, -⟩ := List.lookup_eq_some_iff.mp found
    have shorts : ∀ pair ∈ shortEscapes, IsCommon pair.2 := by decide
    rw [List.forall_mem_cons, List.forall_mem_singleton]
    exact ⟨by decide, shorts (char, short) (by simp [escapes_eq])⟩
  · split
    · next common =>
      simp only [Bool.and_eq_true, decide_eq_true_eq] at common
      exact List.forall_mem_singleton.mpr (.inr common)
    · split
      · exact isCommon_escapedUnit _
      · exact List.forall_mem_append.mpr ⟨isCommon_escapedUnit _, isCommon_escapedUnit _⟩

theorem isCommon_writtenText (text : String) : ∀ char ∈ (writtenText text).toList, IsCommon char := by
  rw [writtenText, String.toList_ofList, List.forall_mem_append, List.forall_mem_cons]
  refine ⟨⟨by decide, fun char inside => ?_⟩, List.forall_mem_singleton.mpr (by decide)⟩
  obtain ⟨source, -, written⟩ := List.mem_flatMap.mp inside
  exact isCommon_writtenChar source char written

theorem isCommon_decimals (value : Int) : ∀ char ∈ (toString value).toList, IsCommon char := by
  have digits : ∀ number, ∀ char ∈ (Nat.repr number).toList, IsCommon char := by
    intro number char inside
    rw [Nat.repr_eq_ofList_toDigits, String.toList_ofList] at inside
    have digit := isDigit_of_mem_decimals char inside
    simp only [Char.isDigit, Bool.and_eq_true, decide_eq_true_eq] at digit
    exact .inr ⟨UInt32.le_trans (by decide) digit.1, UInt32.le_trans digit.2 (by decide)⟩
  cases value with
  | ofNat number => exact digits number
  | negSucc number =>
    change ∀ char ∈ ("-" ++ Nat.repr (number + 1)).toList, IsCommon char
    rw [String.toList_append, List.forall_mem_append]
    exact ⟨isCommon_of_all (by decide), digits (number + 1)⟩

theorem isCommon_enclosed {opening closing : String}
    (opens : ∀ char ∈ opening.toList, IsCommon char)
    (closes : ∀ char ∈ closing.toList, IsCommon char)
    {parts : List String}
    (inside : ∀ part ∈ parts, ∀ char ∈ part.toList, IsCommon char)
    (depth : Nat) : ∀ char ∈ (enclosed opening closing depth parts).toList, IsCommon char := by
  have line : ∀ depth, ∀ char ∈ (lineStart depth).toList, IsCommon char := by
    intro depth char inside
    obtain rfl | rfl := eq_of_mem_lineStart char inside <;> decide
  have separator : ∀ char ∈ ("," ++ lineStart (depth + 1)).toList, IsCommon char := by
    rw [String.toList_append, List.forall_mem_append]
    exact ⟨isCommon_of_all (by decide), line _⟩
  have items := Text.forall_mem_intercalate separator inside
  rw [enclosed]
  split
  · rw [String.toList_append, List.forall_mem_append]
    exact ⟨opens, closes⟩
  · simp only [String.toList_append, List.forall_mem_append]
    exact ⟨⟨⟨⟨opens, line _⟩, items⟩, line _⟩, closes⟩

/-- Only common characters are written. -/
theorem isCommon_write (value : Json) :
    ∀ depth, ∀ char ∈ (value.write depth).toList, IsCommon char := by
  induction value using induct_inside with
  | null =>
    intro depth
    rw [write]
    exact isCommon_of_all (by decide)
  | integer value => exact fun _ => isCommon_decimals value
  | text value => exact fun _ => isCommon_writtenText value
  | array items ih =>
    intro depth
    rw [write, writeItems_eq]
    refine isCommon_enclosed (isCommon_of_all (by decide)) (isCommon_of_all (by decide)) ?_ depth
    rw [List.forall_mem_map]
    exact fun item inside => ih item inside (depth + 1)
  | object members ih =>
    intro depth
    rw [write, writeMembers_eq]
    refine isCommon_enclosed (isCommon_of_all (by decide)) (isCommon_of_all (by decide)) ?_ depth
    rw [List.forall_mem_map]
    intro member inside
    simp only [writeMember, String.toList_append, List.forall_mem_append]
    exact ⟨⟨isCommon_writtenText member.1, isCommon_of_all (by decide)⟩, ih member inside (depth + 1)⟩

end Json
end MarkupLint
