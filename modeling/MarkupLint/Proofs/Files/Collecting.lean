import MarkupLint.Proofs.Files.Expanding
import MarkupLint.Proofs.Files.Scanning

/-!
# Scans of several inputs

What a scan of inputs finds is what a scan of the first ones finds, followed by what a scan of the
others finds in addition.  Ignoring names leaves out just these.  No name is found twice, and no link
leads through the names that are found, unless one of them stands for a plain input that leads into a
circle of links.
-/

namespace MarkupLint
namespace Files

variable {host : Host} {place : Location}

theorem mem_selected_iff
    {ignore : List String}
    {base file : PathName}
    {names : List PathName} :
    file ∈ selected ignore base names ↔ file ∈ names ∧ isIgnored ignore base file = false := by
  rw [selected, List.mem_filter, List.mem_eraseDups]
  simp

theorem selected_append (ignore : List String) (base : PathName) (first second : List PathName) :
    selected ignore base (first ++ second) =
      selected ignore base first ++
        (selected ignore base second).filter fun file => file ∉ selected ignore base first := by
  have others : second.removeAll first = second.filter fun file => file ∉ first := by
    rw [List.removeAll]
    simp
  have behind : (second.eraseDups.filter fun file => file ∉ first).filter
        (fun file => !isIgnored ignore base file) =
      (selected ignore base second).filter fun file => file ∉ selected ignore base first := by
    rw [selected.eq_1 ignore base second, List.filter_filter, List.filter_filter]
    refine List.filter_congr fun file _ => ?_
    cases kept : isIgnored ignore base file <;> simp [mem_selected_iff, kept]
  rw [selected, List.eraseDups_append, others, Table.eraseDups_filter, List.filter_append, behind]
  rfl

theorem selected_eq_filter (ignore : List String) (base : PathName) (names : List PathName) :
    selected ignore base names =
      (selected [] base names).filter fun file => !isIgnored ignore base file := by
  have none : ∀ file, isIgnored [] base file = false := fun _ => rfl
  simp [selected, none]

/-- A resolved name: the name of a place to which no links lead, as far as they may be looked up. -/
def IsResolved (host : Host) (file : PathName) : Prop :=
  ∃ location, Host.IsPure location ∧ host.IsFree location ∧ file = location.pathName

theorem IsResolved.resolve_eq
    (tree : host.root.IsTree)
    {file : PathName}
    (resolved : IsResolved host file) :
    file.isAbsolute = true ∧ host.resolve file = .ok file := by
  obtain ⟨location, pure, free, rfl⟩ := resolved
  exact ⟨rfl, Host.resolve_pathName tree free pure⟩

/-- What an input stands for is resolved, unless the input is a plain name that leads into a circle of
links. -/
theorem isResolved_of_contribution
    (tree : host.root.IsTree)
    (pure : Host.IsPure place)
    {input : String}
    {names : List PathName}
    (contributed : contribution host place.pathName input = .ok names)
    {file : PathName}
    (held : file ∈ names) :
    IsResolved host file ∨
      Pattern.isMagic input = false ∧ names = [file] ∧
        ∀ turn, ¬host.LeadsTo (place.pathName.join (.ofText input)) turn := by
  obtain ⟨expanded, outcome, resolved⟩ := bind_eq_ok_iff.mp contributed
  obtain ⟨each, leads⟩ := of_expandInput tree pure outcome
  obtain ⟨name, among, known⟩ := (mem_iff_of_mapM_eq_ok resolved).mp held
  obtain ⟨absolute, tidy⟩ := each name among
  have of_leads : ∀ turn, host.LeadsTo name turn → IsResolved host file := by
    rintro turn ⟨count, ends⟩
    have leads : host.LeadsTo name turn := ⟨count, ends⟩
    have same := (ends.resolve_cases tree absolute tidy).resolve_right (by simp [known])
    exact ⟨turn, leads.isPure tidy, leads.isFree tree, Except.ok.inj (known.symm.trans same)⟩
  rcases leads with ⟨plain, rfl⟩ | files
  · rw [List.mem_singleton.mp among] at of_leads known
    by_cases circle : ∀ turn, ¬host.LeadsTo (place.pathName.join (.ofText input)) turn
    · rw [List.mapM_cons, known] at resolved
      exact .inr ⟨plain, (Except.ok.inj resolved).symm, circle⟩
    · obtain ⟨turn, leads⟩ := not_forall_not.mp circle
      exact .inl (of_leads turn leads)
  · obtain ⟨bytes, found⟩ := files name among
    obtain ⟨turn, located, -⟩ := Host.find_eq_ok_iff.mp found
    exact .inl (of_leads turn (Host.leadsTo_of_locate tree absolute tidy located))

/-- What an input stands for has a resolved name, unless it is the plain name itself. -/
theorem eq_join_of_resolve_eq_error
    (tree : host.root.IsTree)
    (pure : Host.IsPure place)
    {input : String}
    {names : List PathName}
    (outcome : (expandInput host place.pathName input).result = .ok names)
    {name : PathName}
    (held : name ∈ names)
    {failure : Failure}
    (failed : host.resolve name = .error failure) :
    Pattern.isMagic input = false ∧ name = place.pathName.join (.ofText input) := by
  obtain ⟨each, leads⟩ := of_expandInput tree pure outcome
  obtain ⟨absolute, tidy⟩ := each name held
  rcases leads with ⟨plain, rfl⟩ | files
  · exact ⟨plain, List.mem_singleton.mp held⟩
  · obtain ⟨bytes, found⟩ := files name held
    obtain ⟨turn, located, -⟩ := Host.find_eq_ok_iff.mp found
    rw [Host.resolve_of_locate tree absolute tidy located] at failed
    contradiction

/-- A plain input that leads to no directory contributes its own resolved name. -/
theorem contribution_of_isPlain
    {input : String}
    (isPlain : Pattern.isMagic input = false)
    (other : host.isDirectoryAt (place.pathName.join (.ofText input)).text = .ok false) :
    contribution host place.pathName input =
      (host.resolve (place.pathName.join (.ofText input))).map fun file => [file] := by
  rw [contribution, expandInput_of_isPlain isPlain, other]
  simp only [Except.bind, bind, Bool.false_eq_true, if_false, List.mapM_cons, List.mapM_nil]
  cases host.resolve (place.pathName.join (.ofText input)) <;> rfl

variable {base : PathName}

theorem scan_append_result
    (resolved : host.resolve base = .ok place.pathName)
    (first second ignore : List String) :
    (scan host (first ++ second) ignore base).result =
      (do
        let early ← (scan host first ignore base).result
        let late ← (scan host second ignore base).result
        return early ++ late.filter fun file => file ∉ early) := by
  simp only [scan_result_of_resolve resolved]
  rw [List.mapM_append]
  cases first.mapM (contribution host place.pathName) with
  | error failure => rfl
  | ok early =>
    cases second.mapM (contribution host place.pathName) with
    | error failure => rfl
    | ok late =>
      refine congrArg Except.ok ?_
      simp only [List.flatten_append, selected_append]

theorem scan_ignore_result
    (resolved : host.resolve base = .ok place.pathName)
    (inputs ignore : List String) :
    (scan host inputs ignore base).result =
      (scan host inputs [] base).result.map
        fun files => files.filter fun file => !isIgnored ignore place.pathName file := by
  simp only [scan_result_of_resolve resolved]
  cases inputs.mapM (contribution host place.pathName) with
  | error failure => rfl
  | ok lists => exact congrArg Except.ok (selected_eq_filter ignore place.pathName lists.flatten)

/-- Scans of several inputs make up one of all of them, what is ignored can be left out afterwards, and
what is found is resolved and found once.  A name that is not resolved stands for a plain input that
leads into a circle of links. -/
theorem scan_laws
    (tree : host.root.IsTree)
    (resolved : host.resolve base = .ok place.pathName)
    (first second ignore : List String) :
    (scan host (first ++ second) ignore base).result =
        (do
          let early ← (scan host first ignore base).result
          let late ← (scan host second ignore base).result
          return early ++ late.filter fun file => file ∉ early) ∧
      (scan host first ignore base).result =
        (scan host first [] base).result.map
          (fun files => files.filter fun file => !isIgnored ignore place.pathName file) ∧
      ∀ files, (scan host first ignore base).result = .ok files →
        files.Nodup ∧
          ∀ file ∈ files, file.isAbsolute = true ∧
            (IsResolved host file ∧ host.resolve file = .ok file ∨
              ∃ input ∈ first, Pattern.isMagic input = false ∧
                contribution host place.pathName input = .ok [file] ∧
                ∀ turn, ¬host.LeadsTo (place.pathName.join (.ofText input)) turn) := by
  refine ⟨scan_append_result resolved first second ignore, scan_ignore_result resolved first ignore,
    fun files scanned => ⟨?_, fun file held => ?_⟩⟩
  · obtain ⟨_, lists, -, -, rfl⟩ := exists_lists_of_scan scanned
    exact (Table.nodup_eraseDups _).filter _
  · obtain ⟨_, known, -, input, among, names, contributed, inside⟩ := exists_input_of_scan scanned held
    cases resolved.symm.trans known
    have pure := Host.isPure_of_resolve resolved
    obtain ⟨expanded, -, name, -, same⟩ := exists_resolve_of_contribution contributed inside
    obtain ⟨location, -, rfl⟩ := Host.exists_isPure_of_resolve same
    refine ⟨rfl, ?_⟩
    rcases isResolved_of_contribution tree pure contributed inside with whole | ⟨plain, rfl, circle⟩
    · exact .inl ⟨whole, (whole.resolve_eq tree).2⟩
    · exact .inr ⟨input, among, plain, contributed, circle⟩

/-! ## A link into a circle -/

/-- A link that leads into a circle, and whose target goes on through another link. -/
def circular : Host :=
  FileNode.host (.directory
    [("d", .directory [("x.svg", .file [])]), ("m", .link "d"), ("l", .link "l/../m/x.svg")])

theorem isTree_circular : circular.root.IsTree := by decide

theorem resolve_circular_root : circular.resolve ⟨.slash, []⟩ = .ok (Location.pathName []) :=
  Host.resolve_root rfl

theorem scan_laws_of_circular :
    (circular.root.IsTree ∧ circular.resolve ⟨.slash, []⟩ = .ok (Location.pathName [])) ∧
      (scan circular (["m/x.svg"] ++ ["d"]) ["l"] ⟨.slash, []⟩).result =
        (do
          let early ← (scan circular ["m/x.svg"] ["l"] ⟨.slash, []⟩).result
          let late ← (scan circular ["d"] ["l"] ⟨.slash, []⟩).result
          return early ++ late.filter fun file => file ∉ early) :=
  ⟨⟨isTree_circular, resolve_circular_root⟩,
    (scan_laws isTree_circular resolve_circular_root ["m/x.svg"] ["d"] ["l"]).1⟩

theorem walk_circular : circular.walk true linkLimit [] ["m", "x.svg"] = .ok ["x.svg", "d"] := by
  have inside : circular.root.at? ["x.svg", "d"] = some (.file []) := rfl
  have above : circular.root.at? ["d"] = some (.directory [("x.svg", .file [])]) := rfl
  have link : circular.root.at? ["m"] = some (.link "d") := rfl
  have target : partsOf "d" = ["d"] ∧ Host.linkStart "d" [] = [] := by decide
  rw [linkLimit, Host.walk_follow (by decide) rfl (by decide) link (.inl rfl), target.1,
    target.2, List.singleton_append,
    Host.walk_enter (by decide) rfl (by decide) above (by simp),
    Host.walk_enter (by decide) rfl (by decide) inside (by simp), Host.walk]

theorem leadsTo_circular :
    circular.LeadsTo ⟨.slash, ["d", "x.svg"]⟩ ["x.svg", "d"] ∧
      circular.LeadsTo ⟨.slash, ["m", "x.svg"]⟩ ["x.svg", "d"] := by
  have there : circular.root.at? ["x.svg", "d"] = some (.file []) := rfl
  obtain ⟨count, -, ends⟩ := Host.Ends.of_walk isTree_circular.isProper walk_circular rfl
  exact ⟨Host.leadsTo_of_at? isTree_circular there (by simp), count, ends⟩

theorem isDirectoryAt_circular :
    circular.isDirectoryAt "/l" = .ok false ∧ circular.isDirectoryAt "/d/x.svg" = .ok false := by
  have spelled : "/l" = PathName.text ⟨.slash, ["l"]⟩ ∧
      "/d/x.svg" = PathName.text ⟨.slash, ["d", "x.svg"]⟩ := by decide
  have link : circular.root.at? ["l"] = some (.link "l/../m/x.svg") := rfl
  have begins : partsOf "l/../m/x.svg" = "l" :: ["..", "m", "x.svg"] := by decide
  have looped : circular.find "/l" = .error .tooManyLinks := by
    rw [spelled.1]
    exact Host.find_of_circle isTree_circular rfl (by decide) link (by decide) begins
  have inside : circular.root.at? ["x.svg", "d"] = some (.file []) := rfl
  have above : circular.root.at? ["d"] = some (.directory [("x.svg", .file [])]) := rfl
  have found : circular.find "/d/x.svg" = .ok (.file []) := by
    rw [spelled.2]
    refine Host.find_text isTree_circular rfl (by decide) (by decide)
      (by decide) ?_ inside
    rw [Host.walk_enter (by decide) rfl (by decide) above (by simp),
      Host.walk_enter (by decide) rfl (by decide) inside (by simp), Host.walk]
  simp only [Host.isDirectoryAt, Host.leadsTo, looped, found]
  exact ⟨rfl, rfl⟩

theorem resolve_circular :
    circular.resolve ⟨.slash, ["l"]⟩ = .ok ⟨.slash, ["m", "x.svg"]⟩ := by
  have link : circular.root.at? ["l"] = some (.link "l/../m/x.svg") := rfl
  have begins : partsOf "l/../m/x.svg" = "l" :: ["..", "m", "x.svg"] := by decide
  have parts : Remainder.ofText (PathName.text ⟨.slash, ["l"]⟩) = [.part "", .part "l"] := by
    decide
  have few : circular.root.size = 4 + 1 := by decide
  have reached : circular.resolveFrom circular.root.size [] [] [] [.part "", .part "l"] =
      .ok ["x.svg", "m"] := by
    rw [few, Host.resolveFrom_idle (.inl rfl),
      Host.resolveFrom_of_circle (by decide) (by decide)
        (Host.linkAt?_eq_some_iff.mpr ⟨link, rfl⟩) (by decide) begins]
    decide
  have found : circular.find (Location.pathName ["x.svg", "m"]).text = .ok (.file []) :=
    Host.find_text isTree_circular rfl (by decide) (by decide) (by decide)
      walk_circular rfl
  simp only [Host.resolve, parts, reached, found]
  rfl

theorem contribution_circular :
    contribution circular ⟨.slash, []⟩ "l" = .ok [⟨.slash, ["m", "x.svg"]⟩] ∧
      contribution circular ⟨.slash, []⟩ "d/x.svg" = .ok [⟨.slash, ["d", "x.svg"]⟩] := by
  have joined : (Location.pathName []).join (.ofText "l") = ⟨.slash, ["l"]⟩ ∧
      (Location.pathName []).join (.ofText "d/x.svg") = ⟨.slash, ["d", "x.svg"]⟩ := by
    decide
  have spelled : (⟨.slash, ["l"]⟩ : PathName).text = "/l" ∧
      (⟨.slash, ["d", "x.svg"]⟩ : PathName).text = "/d/x.svg" := by decide
  have resolved : circular.resolve ⟨.slash, ["d", "x.svg"]⟩ = .ok ⟨.slash, ["d", "x.svg"]⟩ := by
    have there : circular.root.at? ["x.svg", "d"] = some (.file []) := rfl
    exact @Host.resolve_pathName circular ["x.svg", "d"] isTree_circular
      (Host.isFree_of_at? there (by simp)) (Host.isPure_of_at? isTree_circular there)
  have first := @contribution_of_isPlain circular [] "l" (by decide)
  have second := @contribution_of_isPlain circular [] "d/x.svg" (by decide)
  rw [joined.1, spelled.1, resolve_circular] at first
  rw [joined.2, spelled.2, resolved] at second
  exact ⟨first isDirectoryAt_circular.1, second isDirectoryAt_circular.2⟩

/-- A file is found twice if a link leads into a circle: behind the circle, links are not followed, so
that the name that is found is not resolved. -/
theorem scan_circular :
    (scan circular ["l", "d/x.svg"] [] ⟨.slash, []⟩).result =
        .ok [⟨.slash, ["m", "x.svg"]⟩, ⟨.slash, ["d", "x.svg"]⟩] ∧
      circular.LeadsTo ⟨.slash, ["d", "x.svg"]⟩ ["x.svg", "d"] ∧
      circular.LeadsTo ⟨.slash, ["m", "x.svg"]⟩ ["x.svg", "d"] := by
  refine ⟨?_, leadsTo_circular⟩
  have contributed := mapM_eq_ok_iff.mpr
    (.cons contribution_circular.1 (.cons contribution_circular.2 .nil))
  rw [scan_result_of_resolve resolve_circular_root]
  refine (congrArg _ contributed).trans ?_
  decide

end Files
end MarkupLint
