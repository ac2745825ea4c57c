import MarkupLint.Proofs.Config.Loading
import MarkupLint.Proofs.Rule.Builtin
import MarkupLint.Proofs.Toml.Data

/-!
# Plans from configuration files

What configuration files hold is data, and no instance of a custom rule is made of data: all
instances of a plan that comes from a file are those of the rules for elements and attributes.
-/

namespace MarkupLint
namespace Config

open Toml (Yields)

/-- Settings whose rules are configured by data. -/
def Settings.IsData (settings : Settings) : Prop := Table.IsData settings.rules

theorem isData_mergeDefaults {entries : Table Value} (data : Table.IsData entries) :
    Table.IsData (mergeDefaults entries) := by
  have folded : ∀ (entries merged : Table Value), Table.IsData entries → Table.IsData merged →
      Table.IsData (entries.foldl (fun merged entry => merged.set entry.1 entry.2) merged) := by
    intro entries
    induction entries with
    | nil => exact fun merged _ kept => kept
    | cons entry rest ih =>
      intro merged data kept
      refine ih _ (fun later held => data later (List.mem_cons_of_mem _ held)) ?_
      exact kept.set (data entry List.mem_cons_self) entry.1
  refine folded entries defaults data ?_
  intro entry held
  simp only [defaults, List.mem_cons, List.not_mem_nil, or_false] at held
  rcases held with rfl | rfl | rfl
  · exact .table [] fun _ held => nomatch held
  · exact .list [] fun _ held => nomatch held
  · exact .null

theorem Settings.yields_ofValue
    {entries : Table Value}
    (data : Table.IsData entries)
    (path? : Option String) :
    Yields Settings.IsData (ofValue (.table entries) path?) := by
  intro settings read
  simp only [ofValue] at read
  split at read
  · contradiction
  · split at read
    · next rules ignore timeout found _ _ _ =>
      cases read
      unfold readRules at found
      split at found
      · next known =>
        cases found
        cases merged : (mergeDefaults entries).value? "rules" with
        | none => simp [merged] at known
        | some value =>
          rw [merged, Option.getD_some] at known
          exact ((isData_mergeDefaults data).value (known ▸ merged)).entries
      · contradiction
    · contradiction

theorem ConfigFile.yields_table (host : Files.Host) (file : ConfigFile) :
    Yields Table.IsData (file.table host) := by
  unfold table
  split
  · exact .error _
  · exact .error _
  · split
    · exact .error _
    · exact (Toml.yields_read _ _).mapError _

theorem isData_sectionOf {project : Table Value} (data : Table.IsData project) :
    (sectionOf project).IsData := by
  have empty : Value.IsData (.table []) := .table [] fun _ held => nomatch held
  have tools : ∀ tools, toolsOf? project = some tools → Table.IsData tools := by
    intro tools known
    unfold toolsOf? at known
    split at known
    · cases known
      exact .nil
    · next found =>
      cases known
      exact (data.value found).entries
    · contradiction
  unfold sectionOf
  split
  · next found known =>
    cases section_eq : (found.value? sectionName) with
    | none => exact empty
    | some value => exact (tools found known).value section_eq
  · exact .null

section

variable {property : Settings → Prop}

/-- What holds of the settings that tables of data lead to holds of those in a file. -/
theorem yields_settingsIn
    (ofValue : ∀ entries path?, Table.IsData entries →
      Yields property (Settings.ofValue (.table entries) path?))
    (host : Files.Host)
    (file : ConfigFile) :
    Yields property (settingsIn host file) := by
  refine (file.yields_table host).bind fun table data => ?_
  split
  · split
    · next entries known => exact ofValue entries _ (known ▸ isData_sectionOf data).entries
    · exact .error _
  · exact ofValue table _ data

/-- What holds of the settings without a configuration, and of those that tables of data lead to, holds
of all that are loaded. -/
theorem yields_load_of
    (standard : property .standard)
    (ofValue : ∀ entries path?, Table.IsData entries →
      Yields property (Settings.ofValue (.table entries) path?))
    (host : Files.Host)
    (directory : Files.PathName)
    (name? : Option Files.PathName) :
    Yields property (load host directory name?).result := by
  unfold load
  split
  · simp only
    split
    · exact .error _
    · exact .error _
    · exact yields_settingsIn ofValue host _
  · split
    · exact .error _
    · exact .ok standard
    · exact yields_settingsIn ofValue host _

end

theorem yields_load
    (host : Files.Host)
    (directory : Files.PathName)
    (name? : Option Files.PathName) :
    Yields Settings.IsData (load host directory name?).result :=
  yields_load_of (fun _ held => nomatch held)
    (fun _ path? data => Settings.yields_ofValue data path?) host directory name?

/-- The instances that are made of data by rules that are always there. -/
theorem isBuiltin_of_instantiate
    {definition : Rule.Definition}
    {value : Value}
    {configured : Rule.Instance}
    (always : definition ∈ [Rule.Definition.elements, .attributes, .custom])
    (data : value.IsData)
    (made : definition.instantiate value = .ok configured) :
    configured.isBuiltin = true := by
  cases definition with
  | foreign name make => simp at always
  | custom =>
    simp only [Rule.Definition.instantiate] at made
    split at made
    · cases data
    · contradiction
  | _ =>
    simp only [Rule.Definition.instantiate] at made
    split at made <;> cases made
    rfl

theorem isBuiltin_of_makeInstances
    {definition : Rule.Definition}
    {rule : String}
    {value : Value}
    {instances : List Rule.Instance}
    (always : definition ∈ [Rule.Definition.elements, .attributes, .custom])
    (data : value.IsData)
    (made : makeInstances definition rule value = .ok instances) :
    ∀ configured ∈ instances, configured.isBuiltin = true := by
  have each : ∀ item ∈ instanceValues value, item.IsData := by
    unfold instanceValues
    split
    · exact data.items
    · intro item held
      rw [List.mem_singleton.mp held]
      exact data
  cases mapped : (instanceValues value).mapM definition.instantiate with
  | ok found =>
    obtain rfl : found = instances := by
      simpa [makeInstances, mapped, Except.mapError] using made
    intro configured held
    obtain ⟨item, known, same⟩ := (mem_iff_of_mapM_eq_ok mapped).mp held
    exact isBuiltin_of_instantiate always (each item known) same
  | error failure => simp [makeInstances, mapped, Except.mapError] at made

/-- Rules that are configured by data have no other instances than those for elements and
attributes. -/
theorem yields_readRuleSet {rules : Table Value} (data : Table.IsData rules) :
    Yields Linting.RuleSet.IsBuiltin (readRuleSet .builtin rules).result := by
  induction rules with
  | nil => exact .ok (List.forall_mem_nil _)
  | cons entry rest ih =>
    obtain ⟨rule, value⟩ := entry
    have others := ih fun later held => data later (List.mem_cons_of_mem _ held)
    unfold readRuleSet
    split
    · exact others
    · split
      · exact others
      · next definition resolved =>
        split
        · next instances made =>
          refine others.map fun builtin kept other held => ?_
          rcases List.mem_cons.mp held with rfl | later
          · exact isBuiltin_of_makeInstances (mem_of_resolve_builtin resolved)
              (data _ List.mem_cons_self) made
          · exact kept other later
        · exact .error _

end Config

/-- The plan for a request has no other instances than those for elements and attributes. -/
theorem CommandLine.LintRequest.yields_plan
    (request : LintRequest)
    (host : Files.Host)
    (directory : Files.PathName) :
    Toml.Yields (fun plan : Config.Plan => plan.rules.IsBuiltin) (request.plan host directory).1 := by
  have loads := Config.yields_load host directory request.config?
  simp only [plan]
  split
  · exact .error _
  · next settings loaded =>
    exact (Config.yields_readRuleSet (loads settings loaded)).map fun rules builtin => builtin

end MarkupLint
