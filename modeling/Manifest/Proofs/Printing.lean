import Manifest.Proofs.Runs
import Manifest.Proofs.Printing.LastPart
import Manifest.Proofs.Stepwise
import Manifest.Proofs.Trimming

/-!
# What a run prints

A run that succeeds prints the text of its value without the blanks at its end,
and a line feed.  In JSON that is the whole text.  In YAML it is the whole text
unless the value ends with a string whose own blanks end the text: a block keeps
its line feeds, and a plain string keeps blanks other than spaces.  These are
lost, and nothing else is.
-/

namespace Manifest
namespace CommandLine

/-- A text is printed without some blanks at its end. -/
theorem printed_drops_blanks (text : String) : ∃ kept blanks : String,
    text = kept ++ blanks ∧ (∀ blank ∈ blanks.toList, Text.isBlank blank = true) ∧
      printed text = kept ++ "\n" := by
  rcases Text.exists_trimEnd text.toList with ⟨blanks, split, all⟩
  refine ⟨String.ofList (Text.trimEnd text.toList), String.ofList blanks, ?_, ?_, rfl⟩
  · rw [← String.ofList_append, ← split, String.ofList_toList]
  · rwa [String.toList_ofList]

/-- What a run that succeeds prints in a format, for the value it comes to. -/
structure Prints (format : Format) (value : Value) (stdout : String) : Prop where
  json : format = .json → stdout = Json.pretty value ++ "\n"
  /-- The text in YAML is whole just if the value does not end with a string that
  loses blanks. -/
  yaml : format = .yaml → (stdout = Yaml.render value ↔
    ∀ content, value.lastPart = .text content → Yaml.losesBlanks content = false)
  /-- Nothing but blanks at the end is ever lost. -/
  loses : ∃ kept blanks : String, render format value = .ok (kept ++ blanks) ∧
    (∀ blank ∈ blanks.toList, Text.isBlank blank = true) ∧ stdout = kept ++ "\n"

theorem prints_render {format : Format} {value : Value} {text : String}
    (rendered : render format value = .ok text) : Prints format value (printed text) where
  json := by
    rintro rfl
    have whole : Json.pretty value = text := Except.ok.inj rendered
    rw [← whole]
    exact printed_of_solid (Json.solid_indented 0 value)
  yaml := by
    rintro rfl
    have whole : Yaml.render value = text := Except.ok.inj rendered
    rw [← whole]
    exact Yaml.printed_render_iff value
  loses := by
    rcases printed_drops_blanks text with ⟨kept, blanks, same, blank, shown⟩
    exact ⟨kept, blanks, same ▸ rendered, blank, shown⟩

/-- A run that succeeds comes to a value and prints it, whatever reads the arguments. -/
theorem prints_value_of_success [ArgumentReader] [Pattern.Engine] {arguments : List String}
    {files : Files} {options : Options}
    (understood : ArgumentReader.read arguments = .compile options)
    (succeeds : (run arguments files).code = 0) :
    ∃ value, Yields options files value ∧
      Prints options.format value (run arguments files).stdout := by
  have same : run arguments files = runWith options files := by
    rw [run, understood]
  rw [same] at succeeds ⊢
  rcases (allOrNothing_of_ending (ending_runWith options files)).shows succeeds with
    ⟨value, text, yields, rendered, shown⟩
  rw [shown]
  exact ⟨value, yields, prints_render rendered⟩

theorem prints_value_of_success_yaml :
    ArgumentReader.read ["--format", "yaml", "d.kyml"] =
        .compile ⟨["d.kyml"], none, some .yaml, false, false⟩ ∧
      (run ["--format", "yaml", "d.kyml"] (.ofTexts [("d.kyml", "a: 1\n")] "")).code = 0 ∧
      ∃ value, Yields ⟨["d.kyml"], none, some .yaml, false, false⟩
          (.ofTexts [("d.kyml", "a: 1\n")] "") value ∧
        Prints .yaml value
          (run ["--format", "yaml", "d.kyml"] (.ofTexts [("d.kyml", "a: 1\n")] "")).stdout := by
  have succeeds :
      (run ["--format", "yaml", "d.kyml"] (.ofTexts [("d.kyml", "a: 1\n")] "")).code = 0 := by
    decide +kernel
  exact ⟨rfl, succeeds, prints_value_of_success rfl succeeds⟩

/-- The run comes to a single line feed, whose block would end with two. -/
theorem line_feed_not_printed :
    ∃ options, ∃ files : Files,
      ArgumentReader.read ["--format", "yaml", "--bindings", "b.json", "d.kyml"] =
        .compile options ∧
      Yields options files (.text "\n") ∧ Yaml.render (.text "\n") = "|2+\n\n" ∧
      (run ["--format", "yaml", "--bindings", "b.json", "d.kyml"] files).code = 0 ∧
      (run ["--format", "yaml", "--bindings", "b.json", "d.kyml"] files).stdout = "|2+\n" := by
  have compiled : ((compileSource "s\n" [("s", .text "\n")]).toOption.any fun evaluated =>
      evaluated.value = .text "\n") = true := by
    decide +kernel
  rcases any_toOption compiled with ⟨evaluated, compiles, same⟩
  refine ⟨⟨["d.kyml"], some "b.json", some .yaml, false, false⟩,
    .ofTexts [("b.json", "\x7b\"s\":\"\\n\"\x7d"), ("d.kyml", "s\n")] "", rfl, ?_,
    by decide +kernel, by decide +kernel, by decide +kernel⟩
  refine ⟨[("s", .text "\n")], [⟨"d.kyml", "s\n"⟩], .file rfl ?_, .paths rfl ?_,
    .single ⟨evaluated, compiles, of_decide_eq_true same⟩⟩
  · decide +kernel
  · exact .cons ⟨rfl, rfl⟩ .nil

end CommandLine
end Manifest
