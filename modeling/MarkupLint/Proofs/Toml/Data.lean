import MarkupLint.Toml.Read

/-!
# Configuration texts describe data

The values that a configuration text describes are data: however deep one looks, there is no script
among them.
-/

namespace MarkupLint

/-- A value in which there is no script. -/
inductive Value.IsData : Value → Prop where
  | null : IsData .null
  | boolean (value : Bool) : IsData (.boolean value)
  | integer (value : Int) : IsData (.integer value)
  | float (value : Binary64) : IsData (.float value)
  | text (value : String) : IsData (.text value)
  | dateTime (value : DateTime) : IsData (.dateTime value)
  | date (value : Date) : IsData (.date value)
  | time (value : TimeOfDay) : IsData (.time value)
  | list (items : List Value) (each : ∀ item ∈ items, IsData item) : IsData (.list items)
  | tuple (items : List Value) (each : ∀ item ∈ items, IsData item) : IsData (.tuple items)
  | table
      (entries : List (String × Value))
      (each : ∀ entry ∈ entries, IsData entry.2) :
      IsData (.table entries)

namespace Value.IsData

theorem items {values : List Value} (data : IsData (.list values)) :
    ∀ item ∈ values, item.IsData := by
  cases data with
  | list _ each => exact each

theorem entries {pairs : List (String × Value)} (data : IsData (.table pairs)) :
    ∀ entry ∈ pairs, entry.2.IsData := by
  cases data with
  | table _ each => exact each

end Value.IsData

/-- A table whose values are data. -/
def Table.IsData (table : Table Value) : Prop := ∀ entry ∈ table, entry.2.IsData

namespace Table.IsData

variable {table : Table Value}

theorem nil : Table.IsData [] := fun _ held => nomatch held

theorem value
    {key : String}
    {value : Value}
    (data : table.IsData)
    (known : table.value? key = some value) :
    value.IsData := by
  obtain ⟨before, behind, split, -⟩ := List.lookup_eq_some_iff.mp known
  refine data (key, value) ?_
  rw [split]
  exact List.mem_append_right _ List.mem_cons_self

theorem set
    {value : Value}
    (data : table.IsData)
    (valued : value.IsData)
    (key : String) :
    (table.set key value).IsData := by
  induction table with
  | nil =>
    intro entry held
    rw [List.mem_singleton.mp held]
    exact valued
  | cons entry rest ih =>
    obtain ⟨other, old⟩ := entry
    have others : Table.IsData rest := fun later held => data later (List.mem_cons_of_mem _ held)
    rw [Table.set]
    split
    · intro entry held
      rcases List.mem_cons.mp held with rfl | later
      · exact valued
      · exact others entry later
    · intro entry held
      rcases List.mem_cons.mp held with rfl | later
      · exact data (other, old) List.mem_cons_self
      · exact ih others entry later

end Table.IsData

namespace Toml

/-- What a result has, if there is one. -/
def Yields {ε α : Type} (property : α → Prop) (result : Except ε α) : Prop :=
  ∀ value, result = .ok value → property value

namespace Yields

variable {ε ζ α β : Type} {property : α → Prop} {other : β → Prop} {result : Except ε α}

theorem ok {value : α} (holds : property value) : Yields property (.ok value : Except ε α) := by
  rintro _ ⟨⟩
  exact holds

theorem error (fault : ε) : Yields property (.error fault) := fun _ same => nomatch same

theorem always (result : Except ε α) : Yields (fun _ => True) result := fun _ _ => trivial

theorem map
    {change : α → β}
    (yields : Yields property result)
    (keeps : ∀ value, property value → other (change value)) :
    Yields other (result.map change) := by
  cases result with
  | error fault => exact .error fault
  | ok value => exact .ok (keeps value (yields value rfl))

theorem bind
    {next : α → Except ε β}
    (yields : Yields property result)
    (goesOn : ∀ value, property value → Yields other (next value)) :
    Yields other (result >>= next) := by
  cases result with
  | error fault => exact .error fault
  | ok value => exact goesOn value (yields value rfl)

theorem mapError (yields : Yields property result) (change : ε → ζ) :
    Yields property (result.mapError change) := by
  cases result with
  | error fault => exact .error (change fault)
  | ok value => exact .ok (yields value rfl)

end Yields

/-- A reading whose value is data. -/
abbrev YieldsData (reading : Reading Value) : Prop := Yields (fun read => read.1.IsData) reading

/-! ## Values without parts -/

theorem yieldsData_wholeNumber (sign digits rest : List Char) :
    YieldsData (wholeNumber sign digits rest) := by
  unfold wholeNumber
  split
  · exact .error _
  · exact .ok (.integer _)

/-- What both of two ways to read something yield. -/
theorem of_orElse
    {α : Type}
    {property : α → Prop}
    {first second : Option α}
    {value : α}
    (early : ∀ value, first = some value → property value)
    (late : ∀ value, second = some value → property value)
    (known : (first <|> second) = some value) :
    property value := by
  cases first with
  | some other =>
    cases known
    exact early value rfl
  | none => exact late value known

theorem yieldsData_of_number?
    {text : List Char}
    {reading : Reading Value}
    (known : number? text = some reading) :
    YieldsData reading := by
  refine of_orElse ?_ (fun _ => of_orElse ?_ ?_) known
  · intro reading based
    obtain ⟨read, found, rfl⟩ := Option.map_eq_some_iff.mp based
    unfold basedNumber? at found
    split at found
    · obtain ⟨base, -, found⟩ := Option.bind_eq_some_iff.mp found
      split at found
      · contradiction
      · cases found
        exact .ok (.integer _)
    · contradiction
  · intro reading decimal
    obtain ⟨⟨whole, rest⟩, -, rfl⟩ := Option.map_eq_some_iff.mp decimal
    simp only
    split
    · exact yieldsData_wholeNumber _ _ _
    · exact .ok (.float _)
  · intro reading special
    obtain ⟨read, found, rfl⟩ := Option.map_eq_some_iff.mp special
    obtain ⟨number, -, rfl⟩ := Option.map_eq_some_iff.mp found
    exact .ok (.float number)

theorem yieldsData_of_moment?
    {text : List Char}
    {reading : Reading Value}
    (known : moment? text = some reading) :
    YieldsData reading := by
  unfold moment? at known
  split at known
  · cases known
    split
    · split
      · exact .ok (.dateTime _)
      · exact .ok (.date _)
    · exact .error _
  · obtain ⟨⟨time, rest⟩, -, rfl⟩ := Option.map_eq_some_iff.mp known
    exact .ok (.time time)

theorem yieldsData_simpleValue (text : List Char) : YieldsData (simpleValue text) := by
  unfold simpleValue
  split
  · next read known =>
    unfold truth? at known
    split at known
    · cases known
      exact .ok (.boolean true)
    · split at known <;> cases known
      exact .ok (.boolean false)
  · split
    · next reading known =>
      exact of_orElse (fun _ => yieldsData_of_moment?) (fun _ => yieldsData_of_number?) known
    · exact .error _

/-! ## Tables in tables -/

/-- A change of a table keeps it data. -/
def KeepsData (change : Table Value → Except Cause (Table Value)) : Prop :=
  ∀ table : Table Value, table.IsData → Yields Table.IsData (change table)

theorem yields_changeLast
    {change : Table Value → Except Cause (Table Value)}
    {items : List Value}
    (keeps : KeepsData change)
    (data : ∀ item ∈ items, item.IsData) :
    Yields (fun items : List Value => ∀ item ∈ items, item.IsData) (changeLast change items) := by
  fun_induction changeLast change items with
  | case1 => exact .error _
  | case2 entries =>
    refine (keeps entries (data _ List.mem_cons_self).entries).map fun changed still => ?_
    intro item held
    rw [List.mem_singleton.mp held]
    exact .table changed still
  | case3 => exact .error _
  | case4 item second rest ih =>
    refine (ih fun later held => data later (List.mem_cons_of_mem _ held)).map fun changed still => ?_
    intro other held
    rcases List.mem_cons.mp held with rfl | later
    · exact data _ List.mem_cons_self
    · exact still other later

theorem keepsData_changeAt
    {change : Table Value → Except Cause (Table Value)}
    (keeps : KeepsData change)
    (entersArrays : Bool)
    (key : Key) :
    KeepsData (changeAt entersArrays change key) := by
  induction key with
  | nil => exact keeps
  | cons name rest ih =>
    intro table data
    simp only [changeAt]
    split
    · exact (ih [] .nil).map fun changed still => data.set (.table changed still) name
    · next entries known =>
      refine (ih entries (data.value known).entries).map fun changed still => ?_
      exact data.set (.table changed still) name
    · next items known =>
      split
      · refine (yields_changeLast ih (data.value known).items).map fun changed still => ?_
        exact data.set (.list changed still) name
      · exact .error _
    · exact .error _

theorem keepsData_unchanged : KeepsData unchanged := fun _ data => .ok data

theorem keepsData_addEntry
    {value : Value}
    (data : value.IsData)
    (taken : Cause)
    (name : String) :
    KeepsData (addEntry taken name value) := by
  intro table kept
  unfold addEntry
  split
  · exact .error _
  · exact .ok (kept.set data name)

theorem keepsData_addTable (name : String) : KeepsData (addTable name) := by
  have empty : Value.IsData (.table []) := .table [] fun _ held => nomatch held
  intro table data
  unfold addTable
  split
  · refine .ok (data.set (.list _ fun item held => ?_) name)
    rw [List.mem_singleton.mp held]
    exact empty
  · next items known =>
    refine .ok (data.set (.list _ fun item held => ?_) name)
    rcases List.mem_append.mp held with early | last
    · exact (data.value known).items item early
    · rw [List.mem_singleton.mp last]
      exact empty
  · exact .error _

/-! ## Values with parts -/

theorem yields_add
    {table : InlineTable}
    {value : Value}
    (data : Table.IsData table.entries)
    (valued : value.IsData)
    (key : Key) :
    Yields (fun table : InlineTable => Table.IsData table.entries) (table.add key value) := by
  unfold InlineTable.add
  split
  · exact .error _
  · exact (keepsData_changeAt (keepsData_addEntry valued _ _) _ _ table.entries data).map
      fun entries still => still

section

variable {rounds room : Nat}

/-- A value is data, if the items and entries in it are. -/
theorem yieldsData_valueFrom_succ
    (listed : ∀ room text, YieldsData (arrayFrom rounds room [] text))
    (tabled : ∀ room text, YieldsData (inlineFrom rounds room .empty text))
    (text : List Char) :
    YieldsData (valueFrom (rounds + 1) room text) := by
  unfold valueFrom
  split
  · exact (Yields.always _).map fun read _ => .text _
  · exact (Yields.always _).map fun read _ => .text _
  · split
    · exact .error _
    · exact listed _ _
  · split
    · exact .error _
    · split
      · exact .ok (.table [] fun _ held => nomatch held)
      · exact tabled _ _
  · exact yieldsData_simpleValue _

/-- An array is data, if its first item and the rest of it are. -/
theorem yieldsData_arrayFrom_succ
    {items : List Value}
    (valued : ∀ text, YieldsData (valueFrom rounds room text))
    (listed : ∀ items text, (∀ item ∈ items, Value.IsData item) →
      YieldsData (arrayFrom rounds room items text))
    (data : ∀ item ∈ items, Value.IsData item)
    (text : List Char) :
    YieldsData (arrayFrom (rounds + 1) room items text) := by
  have reversed : ∀ items : List Value, (∀ item ∈ items, item.IsData) →
      Value.IsData (.list items.reverse) :=
    fun items each => .list _ fun item held => each item (List.mem_reverse.mp held)
  unfold arrayFrom
  split
  · exact .error _
  · exact .ok (reversed items data)
  · split
    · exact .error _
    · next item rest read =>
      have each : ∀ other ∈ item :: items, other.IsData := by
        intro other held
        rcases List.mem_cons.mp held with rfl | early
        · exact valued _ _ read
        · exact data other early
      split
      · exact .error _
      · exact .ok (reversed (item :: items) each)
      · exact listed _ _ each
      · exact .error _

/-- An inline table is data, if its first value and the rest of it are. -/
theorem yieldsData_inlineFrom_succ
    {table : InlineTable}
    (valued : ∀ text, YieldsData (valueFrom rounds room text))
    (tabled : ∀ (table : InlineTable) text, Table.IsData table.entries →
      YieldsData (inlineFrom rounds room table text))
    (data : Table.IsData table.entries)
    (text : List Char) :
    YieldsData (inlineFrom (rounds + 1) room table text) := by
  unfold inlineFrom
  split
  · exact .error _
  · next key rest found =>
    split
    · exact .error _
    · next value rest read =>
      have adds := (yields_add data (valued _ _ read) key).mapError
        fun cause => (⟨cause, rest.length⟩ : Fault)
      split
      · exact .error _
      · next larger added =>
        have still := adds larger added
        split
        · exact .ok (.table _ still)
        · exact tabled larger _ still
        · exact .error _

/-- Whatever is read so far, the items and entries that are read next are data as well. -/
theorem yieldsData_valueFrom (rounds : Nat) :
    (∀ room text, YieldsData (valueFrom rounds room text)) ∧
      (∀ room items text, (∀ item ∈ items, Value.IsData item) →
        YieldsData (arrayFrom rounds room items text)) ∧
      ∀ room (table : InlineTable) text, Table.IsData table.entries →
        YieldsData (inlineFrom rounds room table text) := by
  induction rounds with
  | zero =>
    refine ⟨fun room text => ?_, fun room items text data => ?_, fun room table text data => ?_⟩
    · exact .error _
    · exact .error _
    · exact .error _
  | succ rounds ih =>
    obtain ⟨valued, listed, tabled⟩ := ih
    refine ⟨fun room text => ?_, fun room items text data => ?_, fun room table text data => ?_⟩
    · exact yieldsData_valueFrom_succ (fun room text => listed room [] text fun _ held => nomatch held)
        (fun room text => tabled room .empty text .nil) text
    · exact yieldsData_arrayFrom_succ (valued room) (listed room) data text
    · exact yieldsData_inlineFrom_succ (valued room) (tabled room) data text

end

theorem yieldsData_value (room : Nat) (text : List Char) : YieldsData (value room text) :=
  (yieldsData_valueFrom _).1 room text

/-! ## Statements -/

/-- A document in the making whose values are data. -/
def Draft.IsData (draft : Draft) : Prop := Table.IsData draft.table

namespace Draft.IsData

variable {draft : Draft}

theorem declareTable (data : draft.IsData) (key : Key) :
    Yields Draft.IsData (draft.declareTable key) := by
  unfold Draft.declareTable
  split
  · exact .error _
  · exact (keepsData_changeAt keepsData_unchanged true key draft.table data).map
      fun table still => still

theorem declareItem (data : draft.IsData) (key : Key) :
    Yields Draft.IsData (draft.declareItem key) := by
  unfold Draft.declareItem
  split
  · exact .error _
  · exact (keepsData_changeAt (keepsData_addTable _) true _ draft.table data).map
      fun table still => still

theorem assign
    {value : Value}
    (data : draft.IsData)
    (valued : value.IsData)
    (key : Key) :
    Yields Draft.IsData (draft.assign key value) := by
  simp only [Draft.assign]
  cases (stations draft.header key).find? draft.isDeclared with
  | some station => exact .error _
  | none =>
    cases draft.isClosed (draft.header ++ parentOf key) with
    | true => exact .error _
    | false =>
      exact (keepsData_changeAt (keepsData_addEntry valued _ _) true _ draft.table data).map
        fun table still => still

end Draft.IsData

/-- A document in the making that is read, with what is left of the text. -/
abbrev YieldsDraft (result : Except Fault (Draft × List Char)) : Prop :=
  Yields (fun read => read.1.IsData) result

section

variable {room : Nat} {draft : Draft}

theorem yieldsDraft_tableHeader (data : draft.IsData) (text : List Char) :
    YieldsDraft (tableHeader draft text) := by
  refine (Yields.always _).bind fun ⟨key, rest⟩ _ => ?_
  have begun : draft.beginHeader.IsData := data
  refine ((begun.declareTable key).mapError _).bind fun draft still => ?_
  split
  · exact .ok still
  · exact .error _

theorem yieldsDraft_arrayHeader (data : draft.IsData) (text : List Char) :
    YieldsDraft (arrayHeader draft text) := by
  refine (Yields.always _).bind fun ⟨key, rest⟩ _ => ?_
  have begun : draft.beginHeader.IsData := data
  refine ((begun.declareItem key).mapError _).bind fun draft still => ?_
  split
  · exact .ok still
  · exact .error _

theorem yieldsDraft_assignment (data : draft.IsData) (text : List Char) :
    YieldsDraft (assignment room draft text) := by
  refine (Yields.always _).bind fun ⟨key, rest⟩ _ => ?_
  refine (yieldsData_value room rest).bind fun ⟨value, behind⟩ valued => ?_
  exact ((data.assign valued key).mapError _).bind fun draft still => .ok still

theorem yieldsDraft_statement (data : draft.IsData) (text : List Char) :
    YieldsDraft (statement room draft text) := by
  refine @Yields.map _ _ _ (fun read => read.1.IsData) _ _ _ ?_ fun read still => still
  split
  · exact yieldsDraft_arrayHeader data _
  · exact yieldsDraft_tableHeader data _
  · exact .ok data
  · exact .ok data
  · split
    · exact yieldsDraft_assignment data _
    · exact .error _

theorem yields_statements (data : draft.IsData) (lines : Nat) (text : List Char) :
    Yields Draft.IsData (statements room lines draft text) := by
  induction lines generalizing draft text with
  | zero => exact .ok data
  | succ lines ih =>
    unfold statements
    split
    · exact .ok data
    · exact ih data _
    · refine (yieldsDraft_statement data _).bind fun ⟨draft, rest⟩ still => ?_
      refine (Yields.always _).bind fun rest _ => ?_
      split
      · exact .ok still
      · exact ih still _
      · exact .error _

/-- The table that a configuration text describes holds data. -/
theorem yields_read (room : Nat) (text : List Char) : Yields Table.IsData (read room text) := by
  have reads : Yields Draft.IsData
      (statements room ((joinLineEnds text).length + 1) .empty (joinLineEnds text)) :=
    @yields_statements room .empty Table.IsData.nil _ _
  intro table known
  simp only [read] at known
  split at known
  · next draft found =>
    cases known
    exact reads draft found
  · contradiction

end

end Toml
end MarkupLint
