import MarkupLint.Files.Scan
import MarkupLint.Proofs.Files.Resolving
import MarkupLint.Proofs.Table
import MarkupLint.Proofs.Traversal

/-!
# What a scan finds

Each input contributes the resolved names of the files that it stands for.  A scan finds all of them in
order, each once, unless it is ignored, and it fails as the first input does that cannot contribute.
-/

namespace MarkupLint
namespace Files

/-- The resolved names of the files that an input stands for. -/
def contribution (host : Host) (base : PathName) (input : String) :
    Except Failure (List PathName) := do
  let names ← (expandInput host base input).result
  names.mapM host.resolve

/-- The names of some that are kept, each once. -/
def selected (ignore : List String) (base : PathName) (names : List PathName) : List PathName :=
  names.eraseDups.filter fun name => !isIgnored ignore base name

namespace ScanState

variable {host : Host} {ignore : List String} {base : PathName} {state : ScanState}
  {visited : List PathName}

/-- The scan has come upon these names. -/
structure Holds
    (ignore : List String)
    (base : PathName)
    (visited : List PathName)
    (state : ScanState) : Prop where
  seen_eq : state.seen = visited.eraseDups.reverse
  found_eq : state.found = (selected ignore base visited).reverse

namespace Holds

theorem initial : Holds ignore base [] ⟨[], [], []⟩ where
  seen_eq := rfl
  found_eq := rfl

theorem note (held : Holds ignore base visited state) (records : List LogRecord) :
    Holds ignore base visited (state.note records) where
  seen_eq := held.seen_eq
  found_eq := held.found_eq

theorem visit (held : Holds ignore base visited state) (name : PathName) :
    Holds ignore base (visited ++ [name]) (state.visit ignore base name) := by
  have known_iff : state.seen.contains name = true ↔ name ∈ visited := by
    rw [held.seen_eq]
    simp
  unfold ScanState.visit
  split
  · next known =>
    have met := known_iff.mp known
    constructor
    · rw [held.seen_eq, Table.eraseDups_append_singleton, if_pos met, List.append_nil]
    · rw [held.found_eq, selected, selected, Table.eraseDups_append_singleton, if_pos met,
        List.append_nil]
  · next unknown =>
    have fresh := mt known_iff.mpr unknown
    have all : (visited ++ [name]).eraseDups = visited.eraseDups ++ [name] := by
      rw [Table.eraseDups_append_singleton, if_neg fresh]
    simp only
    split
    · next ignored =>
      constructor
      · simp [ScanState.note, held.seen_eq, all]
      · simp [ScanState.note, held.found_eq, selected, all, ignored]
    · next kept =>
      constructor
      · simp [held.seen_eq, all]
      · simp [held.found_eq, selected, all, kept]

theorem visitAll
    {names places : List PathName}
    (held : Holds ignore base visited state)
    (resolved : names.mapM host.resolve = .ok places) :
    ∃ later, state.visitAll host ignore base names = (later, none) ∧
      Holds ignore base (visited ++ places) later := by
  have paired := mapM_eq_ok_iff.mp resolved
  clear resolved
  induction paired generalizing visited state with
  | nil => exact ⟨state, rfl, by rwa [List.append_nil]⟩
  | @cons name place names places first _ ih =>
    obtain ⟨later, reached, holds⟩ := ih (held.visit place)
    refine ⟨later, ?_, by rwa [List.append_assoc] at holds⟩
    rw [ScanState.visitAll, first]
    exact reached

theorem visitInputs
    {inputs : List String}
    {places : List (List PathName)}
    (held : Holds ignore base visited state)
    (contributed : inputs.mapM (contribution host base) = .ok places) :
    ∃ later, state.visitInputs host ignore base inputs = (later, none) ∧
      Holds ignore base (visited ++ places.flatten) later := by
  have paired := mapM_eq_ok_iff.mp contributed
  clear contributed
  induction paired generalizing visited state with
  | nil => exact ⟨state, rfl, by rwa [List.flatten_nil, List.append_nil]⟩
  | @cons input first inputs others contributed _ ih =>
    obtain ⟨names, expanded, resolved⟩ := bind_eq_ok_iff.mp contributed
    obtain ⟨between, reached, holds⟩ := (held.note (expandInput host base input).logs).visitAll resolved
    obtain ⟨later, ended, all⟩ := ih holds
    refine ⟨later, ?_, by rwa [List.append_assoc, ← List.flatten_cons] at all⟩
    rw [ScanState.visitInputs]
    simp only [expanded, reached]
    exact ended

end Holds

theorem visitAll_of_error
    {names : List PathName}
    {failure : Failure}
    (failed : names.mapM host.resolve = .error failure)
    (ignore : List String)
    (base : PathName)
    (state : ScanState) :
    ∃ later, state.visitAll host ignore base names = (later, some failure) := by
  induction names generalizing state with
  | nil => contradiction
  | cons name rest ih =>
    rw [ScanState.visitAll]
    rcases mapM_cons_eq_error_iff.mp failed with first | ⟨place, first, others⟩
    · exact ⟨state, by rw [first]⟩
    · rw [first]
      exact ih others (state.visit ignore base place)

theorem Holds.visitInputs_of_error
    {inputs : List String}
    {failure : Failure}
    (held : Holds ignore base visited state)
    (failed : inputs.mapM (contribution host base) = .error failure) :
    ∃ later, state.visitInputs host ignore base inputs = (later, some failure) := by
  induction inputs generalizing visited state with
  | nil => contradiction
  | cons input rest ih =>
    have noted := held.note (expandInput host base input).logs
    rw [ScanState.visitInputs]
    rcases mapM_cons_eq_error_iff.mp failed with first | ⟨places, first, others⟩
    · rcases bind_eq_error_iff.mp first with expanded | ⟨names, expanded, resolved⟩
      · exact ⟨_, by simp only [expanded]; rfl⟩
      · obtain ⟨later, stopped⟩ := visitAll_of_error resolved ignore base
          (state.note (expandInput host base input).logs)
        exact ⟨later, by simp only [expanded, stopped]⟩
    · obtain ⟨names, expanded, resolved⟩ := bind_eq_ok_iff.mp first
      obtain ⟨between, reached, holds⟩ := noted.visitAll resolved
      obtain ⟨later, stopped⟩ := ih holds others
      exact ⟨later, by simp only [expanded, reached, stopped]⟩

end ScanState

/-- A scan finds what the inputs contribute, in order, each name once, and unless it is ignored. -/
theorem scan_result_eq (host : Host) (inputs ignore : List String) (base : PathName) :
    (scan host inputs ignore base).result =
      (host.resolve base).bind fun base =>
        (inputs.mapM (contribution host base)).map fun lists =>
          selected ignore base lists.flatten := by
  rw [scan]
  cases host.resolve base with
  | error failure => rfl
  | ok base =>
    have empty : ScanState.Holds ignore base [] ⟨[], [], []⟩ := .initial
    simp only [Except.bind]
    cases contributed : inputs.mapM (contribution host base) with
    | error failure =>
      obtain ⟨later, stopped⟩ := empty.visitInputs_of_error contributed
      rw [stopped]
      rfl
    | ok lists =>
      obtain ⟨later, reached, holds⟩ := empty.visitInputs contributed
      rw [reached, Except.map, ← List.reverse_reverse (selected ignore base lists.flatten)]
      exact congrArg (Except.ok ∘ List.reverse) holds.found_eq

theorem scan_result_of_resolve
    {host : Host}
    {base place : PathName}
    (resolved : host.resolve base = .ok place)
    (inputs ignore : List String) :
    (scan host inputs ignore base).result =
      (inputs.mapM (contribution host place)).map fun lists =>
        selected ignore place lists.flatten := by
  rw [scan_result_eq, resolved]
  rfl

variable {host : Host} {inputs ignore : List String} {base : PathName} {files : List PathName}

/-- What inputs contribute together, read from the resolved base. -/
theorem exists_lists_of_scan (scanned : (scan host inputs ignore base).result = .ok files) :
    ∃ place lists, host.resolve base = .ok place ∧
      inputs.mapM (contribution host place) = .ok lists ∧
      files = selected ignore place lists.flatten := by
  rw [scan_result_eq] at scanned
  obtain ⟨place, resolved, scanned⟩ := bind_eq_ok_iff.mp scanned
  cases contributed : inputs.mapM (contribution host place) with
  | error failure =>
    rw [contributed] at scanned
    contradiction
  | ok lists =>
    rw [contributed, Except.map, Except.ok.injEq] at scanned
    exact ⟨place, lists, resolved, contributed, scanned.symm⟩

/-- A scan fails as one of the inputs does. -/
theorem exists_failure_of_scan
    {place : PathName}
    (resolved : host.resolve base = .ok place)
    {failure : Failure}
    (failed : (scan host inputs ignore base).result = .error failure) :
    ∃ input ∈ inputs, contribution host place input = .error failure := by
  rw [scan_result_of_resolve resolved] at failed
  cases contributed : inputs.mapM (contribution host place) with
  | error other =>
    rw [contributed] at failed
    cases failed
    exact exists_of_mapM_eq_error contributed
  | ok lists =>
    rw [contributed] at failed
    contradiction

theorem mem_flatten_iff_of_contributed
    {lists : List (List PathName)}
    (contributed : inputs.mapM (contribution host base) = .ok lists)
    {file : PathName} :
    file ∈ lists.flatten ↔
      ∃ input ∈ inputs, ∃ names, contribution host base input = .ok names ∧ file ∈ names := by
  rw [List.mem_flatten]
  constructor
  · rintro ⟨names, held, inside⟩
    obtain ⟨input, among, same⟩ := (mem_iff_of_mapM_eq_ok contributed).mp held
    exact ⟨input, among, names, same, inside⟩
  · rintro ⟨input, among, names, same, inside⟩
    exact ⟨names, (mem_iff_of_mapM_eq_ok contributed).mpr ⟨input, among, same⟩, inside⟩

/-- What an input contributes has been resolved. -/
theorem exists_resolve_of_contribution
    {input : String}
    {names : List PathName}
    (contributed : contribution host base input = .ok names)
    {file : PathName}
    (held : file ∈ names) :
    ∃ expanded, (expandInput host base input).result = .ok expanded ∧
      ∃ name ∈ expanded, host.resolve name = .ok file := by
  obtain ⟨expanded, known, resolved⟩ := bind_eq_ok_iff.mp contributed
  exact ⟨expanded, known, (mem_iff_of_mapM_eq_ok resolved).mp held⟩

/-- Every file that a scan has found comes from an input and is not ignored. -/
theorem exists_input_of_scan
    (scanned : (scan host inputs ignore base).result = .ok files)
    {file : PathName}
    (held : file ∈ files) :
    ∃ place, host.resolve base = .ok place ∧ isIgnored ignore place file = false ∧
      ∃ input ∈ inputs, ∃ names, contribution host place input = .ok names ∧ file ∈ names := by
  obtain ⟨place, lists, resolved, contributed, rfl⟩ := exists_lists_of_scan scanned
  obtain ⟨inside, kept⟩ := List.mem_filter.mp held
  exact ⟨place, resolved, by simpa using kept,
    (mem_flatten_iff_of_contributed contributed).mp (List.mem_eraseDups.mp inside)⟩

/-- The names of the files that are found have no null character. -/
theorem clean_of_scan (scanned : (scan host inputs ignore base).result = .ok files) :
    ∀ file ∈ files, '\x00' ∉ file.text.toList := by
  intro file held
  obtain ⟨place, -, -, input, -, names, contributed, inside⟩ := exists_input_of_scan scanned held
  obtain ⟨expanded, -, name, -, resolved⟩ := exists_resolve_of_contribution contributed inside
  exact Host.clean_of_resolve resolved

end Files
end MarkupLint
