import MarkupLint.Proofs.Batch.Order
import MarkupLint.Proofs.Files.Finding
import MarkupLint.Proofs.Report.Block

/-!
# Printing lintings as they come to their ends

Lintings are printed as soon as they come to their ends, or all of them at the end of the batch.
Nothing but the order of the blocks depends on that: a linting does not change any more once it has come
to its end, and blocks are printed one by one as they are printed at once.
-/

namespace MarkupLint

namespace Report

/-- The report of a linting tells what the linting has come to and nothing else. -/
theorem lintingText_congr
    {first second : Linting}
    (same : first.verdict = second.verdict)
    (isStyled : Bool) :
    lintingText isStyled first = lintingText isStyled second := by
  obtain ⟨name_eq, state_eq, diagnostics_eq⟩ := (Linting.Verdict.mk.injEq ..).mp same
  simp only [lintingText, name_eq, state_eq, diagnostics_eq]

namespace Console

/-- The block of a linting as it is printed. -/
def block (console : Console) (linting : Linting) : String :=
  console.printed (lintingText console.isStyled linting)

/-- What is printed behind the blocks of the lintings. -/
def tail (console : Console) (result : Batch.Result) : String :=
  String.join ((closingBlocks result).map console.printed)

/-- At the end of the batch, all blocks are printed one after another. -/
theorem output_of_deferred (colour? : Option Bool) (result : Batch.Result) :
    let console : Console := ⟨true, .text, colour?⟩
    console.output result =
      String.join (result.lintings.map console.block) ++ console.tail result := by
  intro console
  have some : result.lintings.map (lintingText console.isStyled) ++ closingBlocks result ≠ [] := by
    intro none
    have empty := (List.append_eq_nil_iff.mp none).2
    simp only [closingBlocks] at empty
    split at empty <;> contradiction
  have all : console.output result = console.printed (resultText console.isStyled result) :=
    String.empty_append
  rw [all, resultText, printed_intercalate console some, List.map_append, String.join_append,
    List.map_map]
  rfl

/-- Lintings that are shown as they are in the end are printed in the order in which they are shown. -/
theorem output_of_streaming
    {result : Batch.Result}
    {lintings : List Linting}
    (lasting : ∀ entry ∈ result.shown, ∃ linting, lintings[entry.1]? = some linting ∧
      entry.2.verdict = linting.verdict)
    (colour? : Option Bool) :
    let console : Console := ⟨false, .text, colour?⟩
    console.output result =
      String.join (((result.shown.map (·.1)).filterMap (lintings[·]?)).map console.block) ++
        console.tail result := by
  intro console
  have blocks_eq : (result.shown.map fun entry => console.block entry.2) =
      ((result.shown.map (·.1)).filterMap (lintings[·]?)).map console.block := by
    rw [List.filterMap_map, List.map_filterMap, ← List.filterMap_eq_map]
    refine List.filterMap_congr fun entry held => ?_
    obtain ⟨linting, known, same⟩ := lasting entry held
    simp only [Function.comp_apply, known, Option.map_some, block, lintingText_congr same]
  rw [← blocks_eq]
  rfl

end Console
end Report

namespace Batch

open Report (Console)
open Files.Host (readText readDocument readBytes_entry)

/-- However files are read, what is printed while their lintings come to their ends, and behind that, is
what is printed at the end, but for the order of the lintings: that is the order in which they come to
their ends. -/
theorem outputs_agree
    {host : Files.Host}
    {plan : Config.Plan}
    {precision : Precision}
    {files : List Files.PathName}
    {last : Reading}
    {result : Result}
    (path : Reading.Reaches host plan files (.start precision precedence true files.length) last)
    (leads : last.result files.length = .ok result) :
    ∃ order,
      Reading.Completes host plan files (.start precision precedence true files.length) last order ∧
      (last.arranged order).Perm result.lintings ∧
      ∀ colour? : Option Bool,
        let streaming : Console := ⟨false, .text, colour?⟩
        let deferred : Console := ⟨true, .text, colour?⟩
        deferred.output result =
            String.join (result.lintings.map deferred.block) ++ deferred.tail result ∧
          streaming.output result =
            String.join ((last.arranged order).map deferred.block) ++ deferred.tail result ∧
          (Reading.Completes host plan files (.start precision precedence true files.length) last
              (last.order files.length) →
            streaming.output result = deferred.output result) := by
  obtain ⟨complete, closing, rfl⟩ := Reading.result_eq_ok_iff.mp leads
  let order := last.batch.shown.map (·.1)
  have completes : Reading.Completes host plan files (.start precision precedence true files.length)
      last order := path.completes complete closing
  refine ⟨order, completes, ?_, fun colour? => ?_⟩
  · have all : (last.arranged order).Perm (last.arranged (List.range last.batch.lintings.length)) :=
      completes.perm.filterMap _
    rw [last.arranged_range] at all
    exact all.trans path.valid.arranged_perm.symm
  · intro streaming deferred
    have late := Console.output_of_deferred colour? (last.outcome files.length)
    have soon : streaming.output (last.outcome files.length) =
        String.join ((last.arranged order).map deferred.block) ++
          deferred.tail (last.outcome files.length) := by
      refine Console.output_of_streaming (fun entry held => ?_) colour?
      obtain ⟨linting, known, -, same⟩ := path.valid.noted.exhibits.lasting entry held
      exact ⟨linting, known, same⟩
    refine ⟨late, soon, fun orderly => ?_⟩
    rw [soon, completes.unique orderly]
    exact late.symm

/-- Two drawings, and one that is cut off. -/
def cutDrawings : Files.Host :=
  Files.FileNode.host (.directory
    [("a.svg", .file "<svg><rect/></svg>".toUTF8.toList), ("b.svg", .file "<svg/>".toUTF8.toList),
      ("c.svg", .file "<svg>".toUTF8.toList)])

/-- An instance reports a rectangle and is idle for a while, or fails for want of a rectangle. -/
def rectanglePlan : Config.Plan where
  rules := [("rectangle",
    [.custom ⟨[], some [.act (.report .warn "Found" (.selected "rect" 0)), .sleep 1 [] false]⟩])]
  ignore := []
  timeout? := some (.finite false 2 0)

theorem outputs_agree_of_later_first :
    let files : List Files.PathName := [⟨.slash, ["a.svg"]⟩, ⟨.slash, ["b.svg"]⟩, ⟨.slash, ["c.svg"]⟩]
    let streaming : Console := ⟨false, .text, none⟩
    let start : Reading := .start .binary64 .creation true files.length
    ∃ last result,
      (Reading.Reaches cutDrawings rectanglePlan files start last ∧
        last.result files.length = .ok result) ∧
      lint cutDrawings rectanglePlan .binary64 .creation true files = .ok result ∧
      Reading.Completes cutDrawings rectanglePlan files start last [1, 0] ∧
      streaming.output result =
        String.join ((last.arranged [1, 0]).map streaming.block) ++ streaming.tail result := by
  intro files streaming start
  have clean : ∀ name ∈ files, '\x00' ∉ name.text.toList := by decide
  have contained : ∀ document ∈ documents cutDrawings files,
      rectanglePlan.rules.IsContained document :=
    fun document _ => of_decide_eq_true rfl
  have first : cutDrawings.readBytes ("/" ++ "a.svg") = .ok "<svg><rect/></svg>".toUTF8.toList :=
    readBytes_entry rfl rfl (by decide) rfl rfl
  have second : cutDrawings.readBytes ("/" ++ "b.svg") = .ok "<svg/>".toUTF8.toList :=
    readBytes_entry rfl rfl (by decide) rfl rfl
  have third : cutDrawings.readBytes ("/" ++ "c.svg") = .ok "<svg>".toUTF8.toList :=
    readBytes_entry rfl rfl (by decide) rfl rfl
  obtain ⟨opened, opens⟩ :=
    @exists_openFiles cutDrawings rectanglePlan files clean (empty .binary64 .creation true)
  have traced : (match openFiles cutDrawings rectanglePlan (empty .binary64 .creation true) files with
      | .ok opened =>
        decide ((∀ earlier ∈ List.range 21, (opened.goOn earlier).isOver = false) ∧
          (opened.goOn 21).isOver = true ∧ (opened.goOn 21).shown.map (·.1) = [1, 0])
      | .error _ => false) = true := by
    simp only [files, openFiles, readDocument, readText, Files.PathName.text_entry, first, second,
      third]
    decide +kernel
  rw [opens] at traced
  obtain ⟨ahead, complete, shown_eq⟩ := of_decide_eq_true traced
  have run_eq := run_eq_goOn (fun earlier bound => ahead earlier (List.mem_range.mpr bound)) complete
  rw [← run_eq] at complete shown_eq
  obtain ⟨places, opening, ascending⟩ := Reading.exists_reaches_openFiles opens
  obtain ⟨proceeds, -⟩ := Reaches.run_eq (run_eq ▸ opened.reaches_goOn 21) complete
  have path := Relation.ReflTransGen.trans opening (Reading.reaches_proceeds proceeds [] places)
  have sound := (Reading.Reaches.safe path contained).sound rfl
  have closing := sound.stage.of_isOver complete sound.unrefused
  have same := (result_of_ascending path ascending).trans
    (result_eq_ok_iff.mpr ⟨complete, closing, rfl⟩)
  have completes := Reading.Reaches.completes path complete closing
  rw [shown_eq] at completes
  obtain ⟨order, others, -, outputs⟩ := outputs_agree path same
  refine ⟨_, _, ⟨path, same⟩, ?_, completes, ?_⟩
  · rw [lint, opens]
    exact result_eq_ok_iff.mpr ⟨complete, closing, rfl⟩
  · rw [completes.unique others]
    exact (outputs none).2.1

end Batch
end MarkupLint
