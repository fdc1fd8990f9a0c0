import MethodRoles.Proofs.Model.RoundTrip
import MethodRoles.Proofs.Text.Cutting
import MethodRoles.Report

/-!
# The texts of reports

What a report looks like in each of the formats, told from its counts and its diagnostics down to
the last character. As data it is one object with all that is known of each violation. On a page
there is a table of the violations and a section for each of them. On a terminal each violation has
a line of its own, with the evidence below it, and the last line sums up.
-/
namespace MethodRoles

open Data

namespace Layout

/-! ## Violations -/

/-- A place in a file, as it is shown to a reader. -/
def place (l : Location) : String :=
  l.file.text ++ ":" ++ toString l.span.startLine ++ ":" ++ toString l.span.startColumn

def verdict (d : Diagnostic) : String :=
  "Method '" ++ d.methodName ++ "' mixes integration with operation (metric " ++
    toString d.metric ++ ")."

/-- What is known of a violation, under the names that readers of the data rely on. -/
def record (d : Diagnostic) : Value :=
  .obj [("rule_id", .str "CCD0001"), ("severity", .str "warning"),
    ("method_name", .str d.methodName), ("owning_type", .str d.owningType),
    ("metric", .nat d.metric), ("integrations", .arr (d.integrations.map .str)),
    ("operations", .arr (d.operations.map .str)), ("expressions", .arr (d.expressions.map .str)),
    ("integration_text", .str d.integrationText), ("operation_text", .str d.operationText),
    ("location", .obj [("file", .str d.location.file.text), ("span", .obj [
      ("start_line", .nat d.location.span.startLine),
      ("start_column", .nat d.location.span.startColumn),
      ("end_line", .nat d.location.span.endLine),
      ("end_column", .nat d.location.span.endColumn)])])]

def row (d : Diagnostic) : String :=
  "| " ++ place d.location ++ " | `" ++ d.methodName ++ "` | " ++ toString d.metric ++ " |\n"

/-- The lines of the evidence for a violation, in each of which the text is changed in some way. -/
def evidence (integration operation : String → String) (d : Diagnostic) : String :=
  String.join ((Text.lines d.integrationText).map fun line => integration line ++ "\n") ++
    String.join ((Text.lines d.operationText).map fun line => operation line ++ "\n")

def paragraph (d : Diagnostic) : String :=
  "\n## `" ++ d.methodName ++ "`\n\n" ++ verdict d ++ "\n\n" ++ evidence id id d

/-- A text between control sequences, if there are colours. The sequence that opens is set again
behind every one in the text that resets. -/
def styled (color : Bool) (codes text : String) : String :=
  if color then
    let opening := "\x1b[" ++ codes ++ "m"
    opening ++ String.ofList (Paint.reopen opening.toList text.toList) ++ "\x1b[0m"
  else text

def entry (color : Bool) (d : Diagnostic) : String :=
  styled color "1" (place d.location) ++ ": " ++ styled color "1;33" "warning[CCD0001]" ++ ": " ++
    verdict d ++ "\n" ++
    evidence (fun line => "    " ++ styled color "36" line)
      (fun line => "    " ++ styled color "35" line) d

/-! ## Reports -/

def counts (r : Report) : String :=
  " violation(s) in " ++ toString r.methodsAnalyzed ++ " method(s) across " ++
    toString r.filesAnalyzed ++ " file(s)"

def data (r : Report) : Value :=
  .obj [("files_analyzed", .nat r.filesAnalyzed), ("methods_analyzed", .nat r.methodsAnalyzed),
    ("diagnostics", .arr (r.diagnostics.map record))]

def page (r : Report) : String :=
  "# IOSP Report\n\n" ++ toString r.diagnostics.length ++ counts r ++ ".\n" ++
    if r.diagnostics = [] then ""
    else "\n| Location | Method | Metric |\n|----------|--------|--------|\n" ++
      String.join (r.diagnostics.map row) ++ String.join (r.diagnostics.map paragraph)

def screen (color : Bool) (r : Report) : String :=
  String.join (r.diagnostics.map (entry color)) ++
    styled color (if r.diagnostics = [] then "32" else "33")
      (toString r.diagnostics.length ++ " IOSP" ++ counts r) ++ "\n"

end Layout

namespace Report

/-- How a report is shown in a format. The data can be read back from its text. -/
inductive Shown (r : Report) (color : Bool) : ReportFormat → String → Prop where
  | json (hread : Json.read? (Json.pretty (Layout.data r)) = some (Layout.data r)) :
      Shown r color .json (Json.pretty (Layout.data r) ++ "\n")
  | markdown : Shown r color .markdown (Layout.page r)
  | terminal : Shown r color .terminal (Layout.screen color r)

theorem plain_data (r : Report) : (Layout.data r).Plain := by
  have hrecord : ∀ d, (Layout.record d).Plain := by
    intro d
    simp [Layout.record]
  simp [Layout.data, hrecord]

theorem ofLines_markdownRow (ds : List Diagnostic) :
    Text.ofLines (ds.map markdownRow) = String.join (ds.map Layout.row) := by
  have hrow : ∀ d, markdownRow d ++ "\n" = Layout.row d := by
    intro d
    have hend : " |" ++ "\n" = " |\n" := by simp
    rw [markdownRow, String.append_assoc, hend]
    rfl
  rw [Text.ofLines_map, funext hrow]

theorem ofLines_markdownSection (d : Diagnostic) :
    Text.ofLines (markdownSection d) = Layout.paragraph d := by
  have hopen : "\n## `" = "" ++ "\n" ++ "## `" := rfl
  have hclose : "`\n\n" = "`" ++ "\n" ++ "" ++ "\n" := rfl
  have hblank : "\n\n" = "\n" ++ "" ++ "\n" := rfl
  have hevidence : Layout.evidence id id d =
      Text.ofLines (Text.lines d.integrationText) ++ Text.ofLines (Text.lines d.operationText) :=
    rfl
  have hverdict : Layout.verdict d = d.summary := rfl
  rw [markdownSection, Layout.paragraph, hopen, hclose, hblank, hevidence, hverdict]
  simp only [Text.ofLines_append, Text.ofLines_cons, Text.ofLines_nil, String.append_assoc,
    String.empty_append]

theorem markdown_eq_page (r : Report) : r.markdown = Layout.page r := by
  have htitle : "# IOSP Report\n\n" = "# IOSP Report" ++ "\n" ++ "" ++ "\n" := by simp
  have hstop : ".\n" = "." ++ "\n" := by simp
  have htable : "\n| Location | Method | Metric |\n|----------|--------|--------|\n" =
      "" ++ "\n" ++ "| Location | Method | Metric |" ++ "\n" ++ "|----------|--------|--------|" ++
        "\n" := by simp
  have hcounts : Layout.counts r = r.extent := rfl
  unfold markdown Layout.page
  rw [hcounts, ← violations]
  simp only [htitle, hstop, htable]
  split
  · simp only [List.append_nil, Text.ofLines_cons, Text.ofLines_nil, String.append_assoc]
  · simp only [Text.ofLines_append, Text.ofLines_cons, Text.ofLines_nil, Text.ofLines_flatMap,
      ofLines_markdownRow, ofLines_markdownSection, String.append_assoc, String.empty_append]

theorem apply_eq_styled (color : Bool) (s : Style) (text : String) :
    Paint.apply color s text = Layout.styled color s.codes text := by
  cases color with
  | false => rfl
  | true =>
    have hopening : Paint.opening s = ("\x1b[" ++ s.codes ++ "m").toList := by
      simp [Paint.opening, Paint.escapeChar]
    have hreset : String.ofList Paint.reset = "\x1b[0m" := rfl
    rw [Paint.apply, Layout.styled, if_pos rfl, if_pos rfl, Paint.colored, String.ofList_append,
      String.ofList_append, hreset, hopening, String.ofList_toList]

theorem ofLines_terminalLines (color : Bool) (d : Diagnostic) :
    Text.ofLines (terminalLines color d) = Layout.entry color d := by
  have htag : Diagnostic.tag = "warning[CCD0001]" := by decide
  simp only [terminalLines, apply_eq_styled, htag, Style.codes, List.cons_append]
  rw [Text.ofLines_cons, Text.ofLines_append, Text.ofLines_map, Text.ofLines_map]
  rfl

theorem terminal_eq_screen (color : Bool) (r : Report) :
    r.terminal color = Layout.screen color r := by
  have hcodes : (if r.diagnostics = [] then Style.green else Style.yellow).codes =
      if r.diagnostics = [] then "32" else "33" := by
    split <;> rfl
  have hcounts : Layout.counts r = r.extent := rfl
  rw [terminal, Layout.screen, Text.ofLines_append, Text.ofLines_flatMap, Text.ofLines_cons,
    Text.ofLines_nil, String.append_empty, apply_eq_styled, hcodes, hcounts, violations,
    funext (ofLines_terminalLines color), ← String.append_assoc]

theorem shown_iff {r : Report} {color : Bool} {format : ReportFormat} {text : String} :
    r.Shown color format text ↔ text = r.render format color := by
  constructor
  · rintro (_ | _ | _)
    · rfl
    · exact r.markdown_eq_page.symm
    · exact (r.terminal_eq_screen color).symm
  · rintro rfl
    cases format with
    | json => exact .json (Json.read?_pretty r.plain_data)
    | markdown =>
      rw [render, markdown_eq_page]
      exact .markdown
    | terminal =>
      rw [render, terminal_eq_screen]
      exact .terminal

end Report

end MethodRoles
