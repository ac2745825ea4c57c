import MarkupLint.Number.Decimal
import MarkupLint.Script
import MarkupLint.Table
import MarkupLint.Text.Integer
import MarkupLint.Text.Quoted
import MarkupLint.Value.Calendar

/-!
# Configuration values

The values that a configuration is made of, the names of their types, and their display.
-/

namespace MarkupLint

/-- A value of a configuration. -/
inductive Value where
  | null
  | boolean (value : Bool)
  | integer (value : Int)
  | float (value : Binary64)
  | text (value : String)
  | list (items : List Value)
  | tuple (items : List Value)
  | table (entries : List (String × Value))
  | dateTime (value : DateTime)
  | date (value : Date)
  | time (value : TimeOfDay)
  | script (value : Script)
deriving Repr, Inhabited

namespace Value

/-- The name of the type of a value. -/
def typeName : Value → String
  | null => "NoneType"
  | boolean _ => "bool"
  | integer _ => "int"
  | float _ => "float"
  | text _ => "str"
  | list _ => "list"
  | tuple _ => "tuple"
  | table _ => "dict"
  | dateTime _ => "datetime"
  | date _ => "date"
  | time _ => "time"
  | script _ => "Script"

/-- The table with the entries, of which later ones with the same key count. -/
def ofPairs (pairs : List (String × Value)) : Value := table (Table.ofPairs pairs)

/-- The items of a list or a tuple. -/
def items? : Value → Option (List Value)
  | list items => some items
  | tuple items => some items
  | _ => none

theorem items?_eq_some_iff {value : Value} {items : List Value} :
    value.items? = some items ↔ value = .list items ∨ value = .tuple items := by
  cases value <;> simp [items?]

/-- The display of a truth value. -/
def booleanText (value : Bool) : String := if value then "True" else "False"

mutual

/-- The display of a value. -/
def display : Value → String
  | null => "None"
  | boolean value => booleanText value
  | integer value => toString value
  | float value => value.text
  | text value => Text.quoted value
  | list items => "[" ++ String.intercalate ", " (displayItems items) ++ "]"
  | tuple items => Text.tupleText (displayItems items)
  | table entries => "\x7b" ++ String.intercalate ", " (displayEntries entries) ++ "\x7d"
  | dateTime value => value.display
  | date value => DateTime.call "date" value.parts ""
  | time value => DateTime.call "time" value.parts ""
  | script _ => "Script"

/-- The displays of values. -/
def displayItems : List Value → List String
  | [] => []
  | item :: rest => display item :: displayItems rest

/-- The displays of entries. -/
def displayEntries : List (String × Value) → List String
  | [] => []
  | (key, value) :: rest => (Text.quoted key ++ ": " ++ display value) :: displayEntries rest

end

mutual

/-- Whether every integer in a value can be shown. -/
def isShowable : Value → Bool
  | integer value => Text.isShowable value
  | list items => areShowable items
  | tuple items => areShowable items
  | table entries => haveShowable entries
  | _ => true

/-- Whether every integer in the values can be shown. -/
def areShowable : List Value → Bool
  | [] => true
  | item :: rest => isShowable item && areShowable rest

/-- Whether every integer in the entries can be shown. -/
def haveShowable : List (String × Value) → Bool
  | [] => true
  | (_, value) :: rest => isShowable value && haveShowable rest

end

mutual

/-- The name of the type of the first part of a value that cannot be a key of a table, if there is
one. -/
def unhashable? : Value → Option String
  | list _ => some "list"
  | table _ => some "dict"
  | tuple items => firstUnhashable? items
  | _ => none

/-- The name of the type of the first part of values that cannot be a key of a table, if there is one. -/
def firstUnhashable? : List Value → Option String
  | [] => none
  | item :: rest => unhashable? item <|> firstUnhashable? rest

end

end Value
end MarkupLint
