import MethodRoles.Role.Analyzer
import MethodRoles.Text

/-!
# Reports

A report is counted and collected once, and shown as data, as a page or on a terminal. Only on a
terminal are there colours.
-/
namespace MethodRoles

/-- What a run over some files has found. -/
structure Report where
  filesAnalyzed : Nat := 0
  methodsAnalyzed : Nat := 0
  diagnostics : List Diagnostic := []
  deriving DecidableEq, Repr, Inhabited

/-- The report on files under a configuration. It counts all files and methods, also those that are
not judged. -/
def Report.ofFiles (c : Config) (files : List SourceFile) : Report where
  filesAnalyzed := files.length
  methodsAnalyzed := files.foldr (·.methods.length + ·) 0
  diagnostics := (Analyzer.ofConfig c).diagnosticsOfAll .unlimited files

namespace Report

def toValue (r : Report) : Data.Value :=
  .obj [("files_analyzed", .nat r.filesAnalyzed), ("methods_analyzed", .nat r.methodsAnalyzed),
    ("diagnostics", .arr (r.diagnostics.map Diagnostic.toValue))]

def violations (r : Report) : Nat := r.diagnostics.length

end Report

/-!
## Colours of a terminal

A text is coloured by a control sequence in front of it and a reset after it. A reset inside the
text is followed by the control sequence again, so that the colour lasts to the end of the text.
-/

inductive Style where
  | bold
  | boldYellow
  | cyan
  | magenta
  | green
  | yellow
  deriving DecidableEq, Repr

def Style.codes : Style → String
  | .bold => "1"
  | .boldYellow => "1;33"
  | .cyan => "36"
  | .magenta => "35"
  | .green => "32"
  | .yellow => "33"

namespace Paint

def escapeChar : Char := '\x1b'

def opening (s : Style) : List Char := escapeChar :: '[' :: s.codes.toList ++ ['m']

def reset : List Char := [escapeChar, '[', '0', 'm']

/-- Puts `again` behind every reset of a text. -/
def reopen (again : List Char) : List Char → List Char
  | [] => []
  | '\x1b' :: '[' :: '0' :: 'm' :: cs => reset ++ again ++ reopen again cs
  | c :: cs => c :: reopen again cs

def colored (s : Style) (cs : List Char) : List Char := opening s ++ reopen (opening s) cs ++ reset

/-- The text in the given style if colours are on, and as it is otherwise. -/
def apply (color : Bool) (s : Style) (text : String) : String :=
  if color then String.ofList (colored s text.toList) else text

end Paint

/-! ## Reports as texts -/

namespace Report

def json (r : Report) : String := Json.pretty r.toValue ++ "\n"

/-- The end of the sentence that sums up a report. -/
def extent (r : Report) : String :=
  " violation(s) in " ++ toString r.methodsAnalyzed ++ " method(s) across " ++
    toString r.filesAnalyzed ++ " file(s)"

def markdownRow (d : Diagnostic) : String :=
  "| " ++ d.location.display ++ " | `" ++ d.methodName ++ "` | " ++ toString d.metric ++ " |"

def markdownSection (d : Diagnostic) : List String :=
  ["", "## `" ++ d.methodName ++ "`", "", d.summary, ""] ++ Text.lines d.integrationText ++
    Text.lines d.operationText

def markdown (r : Report) : String :=
  Text.ofLines <|
    ["# IOSP Report", "", toString r.violations ++ r.extent ++ "."] ++
    if r.diagnostics = [] then []
    else
      ["", "| Location | Method | Metric |", "|----------|--------|--------|"] ++
        r.diagnostics.map markdownRow ++ r.diagnostics.flatMap markdownSection

def terminalLines (color : Bool) (d : Diagnostic) : List String :=
  (Paint.apply color .bold d.location.display ++ ": " ++
      Paint.apply color .boldYellow Diagnostic.tag ++ ": " ++ d.summary) ::
    (Text.lines d.integrationText).map (fun line => "    " ++ Paint.apply color .cyan line) ++
    (Text.lines d.operationText).map (fun line => "    " ++ Paint.apply color .magenta line)

def terminal (color : Bool) (r : Report) : String :=
  Text.ofLines <| r.diagnostics.flatMap (terminalLines color) ++
    [Paint.apply color (if r.diagnostics = [] then .green else .yellow)
      (toString r.violations ++ " IOSP" ++ r.extent)]

def render (format : ReportFormat) (color : Bool) (r : Report) : String :=
  match format with
  | .json => r.json
  | .markdown => r.markdown
  | .terminal => r.terminal color

end Report

end MethodRoles
