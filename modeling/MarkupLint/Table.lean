/-!
# Tables

A table gives values to different keys and keeps the keys in the order in which they first
occurred.
-/

namespace MarkupLint

/-- Keys with their values, in the order in which the keys first occurred. -/
abbrev Table (α : Type u) := List (String × α)

namespace Table

variable {α : Type u}

/-- Give a key a value: a new key comes last, a known key keeps its place. -/
def set (table : Table α) (key : String) (value : α) : Table α :=
  match table with
  | [] => [(key, value)]
  | (other, old) :: rest =>
    if other = key then (other, value) :: rest else (other, old) :: set rest key value

/-- The value of a key. -/
def value? (table : Table α) (key : String) : Option α := table.lookup key

/-- Whether the key has a value. -/
def hasKey (table : Table α) (key : String) : Bool := (table.value? key).isSome

/-- The keys in order. -/
def keys (table : Table α) : List String := table.map (·.1)

/-- The table without a key. -/
def erase (table : Table α) (key : String) : Table α := table.filter fun entry => entry.1 ≠ key

/-- A table of keys with values: of equal keys, the first gives the place and the last the
value. -/
def ofPairs (pairs : List (String × α)) : Table α :=
  pairs.foldl (fun table pair => table.set pair.1 pair.2) []

@[simp] theorem set_nil (key : String) (value : α) : set [] key value = [(key, value)] := rfl

@[simp] theorem ofPairs_nil : ofPairs ([] : List (String × α)) = [] := rfl

theorem ofPairs_append_singleton
    (pairs : List (String × α))
    (key : String)
    (value : α) :
    ofPairs (pairs ++ [(key, value)]) = (ofPairs pairs).set key value := by
  simp [ofPairs]

/-- A known key keeps its place, and a new key comes last. -/
theorem keys_set
    (table : Table α)
    (key : String)
    (value : α) :
    (table.set key value).keys = if key ∈ table.keys then table.keys else table.keys ++ [key] := by
  induction table with
  | nil => simp [set, keys]
  | cons entry rest ih =>
    obtain ⟨other, old⟩ := entry
    simp only [keys] at ih
    by_cases same : other = key
    · simp [set, keys, same]
    · have different : key ≠ other := fun equal => same equal.symm
      simp only [set, same, if_false, keys, List.map_cons, ih, List.mem_cons, different, false_or]
      split <;> simp_all

end Table
end MarkupLint
