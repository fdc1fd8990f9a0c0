import MethodRoles.Proofs.Command.Reading
import MethodRoles.Proofs.Report.Layout
import MethodRoles.Proofs.Report.Parts
import MethodRoles.Proofs.Role.Classification

/-!
# A check does all or nothing

A check may fail for its configuration, for a model or for its output. Whatever it fails for, it has
read everything before it changes anything, so that a failed check leaves the machine as it was. A
check that succeeds makes one change: the report goes to the output, even if that is a file it has
read from.
-/
namespace MethodRoles

namespace CheckRequest

variable {r : CheckRequest} {m : Machine}

/-- What is read for a check: its configuration, and the files of all models in order. -/
structure Reads (r : CheckRequest) (m : Machine) (c : Config) (files : List SourceFile) : Prop where
  config : m.configuration r.config = .ok c
  models : ∃ parts, List.Forall₂ (fun p part => m.filesIn p = .ok part) r.models parts ∧
    files = parts.flatten

/-- The configuration that a check works with. What is asked for on the command line goes before
what has been read; nothing else changes. -/
structure Overrides (r : CheckRequest) (c used : Config) : Prop where
  enabled : used.rule.enabled = c.rule.enabled
  minMetric : ∀ n, used.rule.minMetric = n ↔
    r.minMetric = some n ∨ r.minMetric = none ∧ c.rule.minMetric = n
  exclusions : used.exclusions = c.exclusions
  parallel : used.analysis.parallel = true ↔ c.analysis.parallel = true ∧ r.noParallel = false
  jobs : ∀ n, used.analysis.jobs = n ↔ r.jobs = some n ∨ r.jobs = none ∧ c.analysis.jobs = n
  includeGenerated : used.analysis.includeGenerated = true ↔
    c.analysis.includeGenerated = true ∨ r.includeGenerated = true
  output : used.output = c.output

/-- A report is written in the format that was asked for, else in that of the configuration, else
for a terminal. -/
def Chooses (r : CheckRequest) (c : Config) (format : ReportFormat) : Prop :=
  r.format = some format ∨ r.format = none ∧
    (c.output.defaultFormat = some format ∨ c.output.defaultFormat = none ∧ format = .terminal)

/-- There are colours if the configuration wants them, or if it leaves that open and they are
printed to a terminal; but none if a plain text was asked for. -/
def Colours (r : CheckRequest) (m : Machine) (c : Config) (color : Bool) : Prop :=
  color = true ↔ r.plain = false ∧
    (c.output.useColor = some true ∨ c.output.useColor = none ∧ m.terminal = true)

/-- The report that a check comes to on a machine, and the text of it. -/
inductive Gives (r : CheckRequest) (m : Machine) : Report → String → Prop where
  | intro {c used : Config} {files : List SourceFile} {report : Report} {format : ReportFormat}
      {color : Bool} {text : String} (reads : r.Reads m c files) (overrides : r.Overrides c used)
      (covers : report.Covers used files) (chooses : r.Chooses c format)
      (colours : r.Colours m c color) (shown : report.Shown color format text) :
      Gives r m report text

/-- How a check can end on a machine: what it answers, and the machine after it. -/
inductive Ends (r : CheckRequest) (m : Machine) : Except CommandError Report → Machine → Prop where
  | unreadableConfig {file : Path} : r.config = some file → m.readText? file = none →
      Ends r m (.error (.config .unreadable)) m
  | invalidConfig {file : Path} {text : String} : r.config = some file →
      m.readText? file = some text → Config.ofToml? text = none →
      Ends r m (.error (.config (.invalid file))) m
  | badModel {c : Config} {before rest : List Path} {p : Path} {e : ModelError} :
      m.configuration r.config = .ok c → r.models = before ++ p :: rest →
      (∀ q ∈ before, ∃ files, m.filesIn q = .ok files) → m.filesIn p = .error e →
      Ends r m (.error (.model p e)) m
  | badOutput {c : Config} {files : List SourceFile} {p : Path} : r.Reads m c files →
      r.output = some p → m.creatable? p = none → Ends r m (.error (.output p)) m
  | printed {report : Report} {text : String} : r.Gives m report text → r.output = none →
      Ends r m (.ok report) { m with output := m.output ++ text }
  | written {report : Report} {text : String} {p : Path} {place : Place} : r.Gives m report text →
      r.output = some p → m.creatable? p = some place →
      Ends r m (.ok report) (m.put place (.file text.toUTF8))

/-! ## What a check comes to -/

theorem overrides_override (r : CheckRequest) (c : Config) : r.Overrides c (r.override c) where
  enabled := rfl
  minMetric n := by cases h : r.minMetric <;> simp [override, h]
  exclusions := rfl
  parallel := by simp [override]
  jobs n := by cases h : r.jobs <;> simp [override, h]
  includeGenerated := by simp [override]
  output := rfl

/-- What a request asks for leaves no choice. -/
theorem overrides_iff {c used : Config} : r.Overrides c used ↔ used = r.override c := by
  have h' := r.overrides_override c
  constructor
  · intro h
    have hmetric := (h.minMetric _).2 ((h'.minMetric _).1 rfl)
    have hparallel := Bool.eq_iff_iff.2 (h.parallel.trans h'.parallel.symm)
    have hjobs := (h.jobs _).2 ((h'.jobs _).1 rfl)
    have hinclude := Bool.eq_iff_iff.2 (h.includeGenerated.trans h'.includeGenerated.symm)
    obtain ⟨⟨_, _⟩, _, ⟨_, _, _⟩, _⟩ := used
    simp only [override, Config.mk.injEq, RuleSettings.mk.injEq, AnalysisSettings.mk.injEq]
    exact ⟨⟨h.enabled, hmetric⟩, h.exclusions, ⟨hparallel, hjobs, hinclude⟩, h.output⟩
  · rintro rfl
    exact h'

theorem chooses_iff {c : Config} {format : ReportFormat} :
    r.Chooses c format ↔ format = r.formatUnder c := by
  cases hflag : r.format <;> cases hconfig : c.output.defaultFormat <;>
    simp [Chooses, formatUnder, hflag, hconfig, eq_comm]

theorem colours_iff {c : Config} {color : Bool} :
    r.Colours m c color ↔ color = (!r.plain && c.output.useColor.getD m.terminal) := by
  rw [Bool.eq_iff_iff, Colours]
  cases c.output.useColor <;> simp

/-- The report on files under a configuration, over which the request goes. -/
def reportOn (r : CheckRequest) (c : Config) (files : List SourceFile) : Report :=
  Report.ofFiles (r.override c) files

def textOf (r : CheckRequest) (m : Machine) (c : Config) (report : Report) : String :=
  report.render (r.formatUnder c) (!r.plain && c.output.useColor.getD m.terminal)

theorem gives_iff {report : Report} {text : String} :
    r.Gives m report text ↔ ∃ c files, r.Reads m c files ∧ report = r.reportOn c files ∧
      text = r.textOf m c report := by
  constructor
  · rintro ⟨hreads, hoverrides, hcovers, hchooses, hcolours, hshown⟩
    rw [overrides_iff] at hoverrides
    rw [chooses_iff] at hchooses
    rw [colours_iff] at hcolours
    subst hoverrides hchooses hcolours
    exact ⟨_, _, hreads, Report.covers_iff.1 hcovers, Report.shown_iff.1 hshown⟩
  · rintro ⟨c, files, hreads, rfl, rfl⟩
    exact .intro hreads (r.overrides_override c) (Report.covers_iff.2 rfl) (chooses_iff.2 rfl)
      (colours_iff.2 rfl) (Report.shown_iff.2 rfl)

/-! ## Running a check -/

theorem run_useColor (m : Machine) (plain : Bool) (setting : Option Bool) :
    (Command.useColor plain setting : StateM Machine Bool).run m =
      (!plain && setting.getD m.terminal, m) := by
  cases plain <;> cases setting <;> rfl

theorem run_deliver_of_not_creatable {p : Path} (h : m.creatable? p = none) (text : String) :
    m.run (Command.deliver (some p) text) = (.error (.output p), m) := by
  rw [Command.deliver, Machine.run_bind, Machine.run_liftM, Machine.run_writeText,
    Machine.writeText?_eq, h]
  rfl

theorem run_deliver_of_creatable {p : Path} {place : Place} (h : m.creatable? p = some place)
    (text : String) :
    m.run (Command.deliver (some p) text) = (.ok (), m.put place (.file text.toUTF8)) := by
  rw [Command.deliver, Machine.run_bind, Machine.run_liftM, Machine.run_writeText,
    Machine.writeText?_eq, h]
  rfl

theorem reads_iff {c : Config} {files : List SourceFile} :
    r.Reads m c files ↔
      m.configuration r.config = .ok c ∧
      (r.models.mapM m.modelIn).map List.flatten = .ok files := by
  simp only [Traversal.map_eq_ok_iff, Traversal.mapM_eq_ok_iff, Machine.modelIn_eq_ok_iff]
  exact ⟨fun h => ⟨h.config, h.models⟩, fun h => ⟨h.1, h.2⟩⟩

theorem run_check_of_config_error {e : ConfigError} (h : m.configuration r.config = .error e) :
    m.run (Command.check r) = (.error (.config e), m) := by
  rw [Command.check, Machine.run_liftM_bind (m.run_resolve r.config), h]
  rfl

theorem run_check_of_config_ok {c : Config} (h : m.configuration r.config = .ok c) :
    m.run (Command.check r) = m.run (do
      let files ← Command.loadModels r.models
      Command.deliver r.output (r.textOf m c (r.reportOn c files))
      return r.reportOn c files) := by
  rw [Command.check, Machine.run_liftM_bind (m.run_resolve r.config), h]
  dsimp only
  rw [Machine.run_liftM_bind (run_useColor m _ _)]
  rfl

theorem run_check_of_model_error {c : Config} {e : CommandError}
    (hconfig : m.configuration r.config = .ok c)
    (hmodels : r.models.mapM m.modelIn = .error e) : m.run (Command.check r) = (.error e, m) := by
  rw [run_check_of_config_ok hconfig, Machine.run_bind, Machine.run_loadModels, hmodels]
  rfl

/-- When all has been read, only the output can still be at fault. -/
theorem run_check_of_reads {c : Config} {files : List SourceFile} (h : r.Reads m c files) :
    m.run (Command.check r) = m.run (do
      Command.deliver r.output (r.textOf m c (r.reportOn c files))
      return r.reportOn c files) := by
  obtain ⟨hconfig, hmodels⟩ := reads_iff.1 h
  rw [run_check_of_config_ok hconfig, Machine.run_bind, Machine.run_loadModels, hmodels]

theorem run_of_ends {answer : Except CommandError Report} {after : Machine}
    (h : r.Ends m answer after) :
    m.run (Command.check r) = (answer, after) := by
  cases h with
  | unreadableConfig hfile hread =>
    refine run_check_of_config_error ?_
    rw [hfile, Machine.configuration, hread]
  | invalidConfig hfile hread hinvalid =>
    refine run_check_of_config_error ?_
    rw [hfile, Machine.configuration, hread]
    dsimp only
    rw [hinvalid]
  | badModel hconfig hmodels hbefore hp =>
    refine run_check_of_model_error hconfig
      (Traversal.mapM_eq_error_iff.2 ⟨_, _, _, hmodels, ?_, ?_⟩)
    · simpa only [Machine.modelIn_eq_ok_iff] using hbefore
    · exact Machine.modelIn_eq_error_iff.2 ⟨_, hp, rfl⟩
  | badOutput hreads houtput hplace =>
    rw [run_check_of_reads hreads, houtput, Machine.run_bind, run_deliver_of_not_creatable hplace]
  | printed hgives houtput =>
    obtain ⟨c, files, hreads, rfl, rfl⟩ := gives_iff.1 hgives
    rw [run_check_of_reads hreads, houtput]
    rfl
  | written hgives houtput hplace =>
    obtain ⟨c, files, hreads, rfl, rfl⟩ := gives_iff.1 hgives
    rw [run_check_of_reads hreads, houtput, Machine.run_bind, run_deliver_of_creatable hplace]
    rfl

/-- There is always a way to end. -/
theorem exists_ends (r : CheckRequest) (m : Machine) : ∃ answer after, r.Ends m answer after := by
  cases hconfig : m.configuration r.config with
  | error e =>
    obtain ⟨file, hfile, ⟨hread, rfl⟩ | ⟨text, hread, hinvalid, rfl⟩⟩ :=
      Machine.configuration_eq_error_iff.1 hconfig
    · exact ⟨_, _, .unreadableConfig hfile hread⟩
    · exact ⟨_, _, .invalidConfig hfile hread hinvalid⟩
  | ok c =>
    cases hmodels : r.models.mapM m.modelIn with
    | error e =>
      obtain ⟨before, p, rest, hsplit, hbefore, hp⟩ := Traversal.mapM_eq_error_iff.1 hmodels
      obtain ⟨fault, hfault, rfl⟩ := Machine.modelIn_eq_error_iff.1 hp
      simp only [Machine.modelIn_eq_ok_iff] at hbefore
      exact ⟨_, _, .badModel hconfig hsplit hbefore hfault⟩
    | ok parts =>
      have hreads : r.Reads m c parts.flatten := reads_iff.2 ⟨hconfig, by rw [hmodels]; rfl⟩
      have hgives := gives_iff.2 ⟨c, _, hreads, rfl, rfl⟩
      cases houtput : r.output with
      | none => exact ⟨_, _, .printed hgives houtput⟩
      | some p =>
        cases hplace : m.creatable? p with
        | none => exact ⟨_, _, .badOutput hreads houtput hplace⟩
        | some place => exact ⟨_, _, .written hgives houtput hplace⟩

theorem run_check_iff {answer : Except CommandError Report} {after : Machine} :
    m.run (Command.check r) = (answer, after) ↔ r.Ends m answer after := by
  refine ⟨fun h => ?_, run_of_ends⟩
  obtain ⟨answer', after', hends⟩ := r.exists_ends m
  rw [run_of_ends hends] at h
  cases h
  exact hends

/-- A check ends in exactly one of six ways. If it answers with an error, neither a file nor what
has been printed has changed. If it answers with a report, that is the report on all models under
the configuration with what the request asks for, and its text has been printed, or is what the
output file holds from then on; nothing else has changed. -/
theorem check_all_or_nothing (r : CheckRequest) (m : Machine) :
    (∀ answer after, m.run (Command.check r) = (answer, after) ↔ r.Ends m answer after) ∧
    (∀ e after, m.run (Command.check r) = (.error e, after) → after = m) ∧
    (∀ report after, m.run (Command.check r) = (.ok report, after) →
      ∃ text, r.Gives m report text ∧
        match r.output with
        | none => after = { m with output := m.output ++ text }
        | some p => after.readText? p = some text ∧ after.output = m.output ∧
            ∃ place, m.resolve? p = some place ∧ ∀ q, q ≠ place → after.entry q = m.entry q) := by
  refine ⟨fun answer after => run_check_iff, fun e after h => ?_, fun report after h => ?_⟩
  · cases run_check_iff.1 h <;> rfl
  · cases run_check_iff.1 h with
    | @printed _ text hgives houtput =>
      refine ⟨text, hgives, ?_⟩
      rw [houtput]
    | @written _ text p place hgives houtput hplace =>
      refine ⟨text, hgives, ?_⟩
      rw [houtput]
      refine ⟨Machine.readText?_put_file hplace _, rfl, place,
        (Machine.creatable?_eq_some_iff.1 hplace).1, ?_⟩
      intro q hq
      rw [Machine.entry_put, if_neg hq]

/-- A generated file with a method that calls another one and computes a sum. -/
def sum : FileModel where
  path := ⟨"Sum.cs"⟩
  generated := true
  nodes :=
    [{ kind := .block, children := [1, 2],
       span := { startLine := 3, startColumn := 5, endLine := 6, endColumn := 6 } },
      { kind := .binaryExpression, text := "a + b" }, { kind := .invocation, text := "Load()" }]
  methods := [{ name := "Run", body := some 0 }]
  calls := [{ node := 2, target := .user "Load" }]

def strictText : String := "[rule]\nmin_metric = 5\n\n[output]\ndefault_format = \"json\"\n"

/-- A configuration that leaves out the method twice over. -/
def strict : Config := { rule := { minMetric := 5 }, output := { defaultFormat := some .json } }

def withSum : Machine :=
  (Machine.empty.put ["sum.json"] (.file (ProgramModel.mk [sum]).toJson.toUTF8)).put ["strict.toml"]
    (.file strictText.toUTF8)

/-- A request to report the method all the same, on a page that is written over the model. -/
def overSum : CheckRequest where
  models := [⟨"sum.json"⟩]
  format := some .markdown
  output := some ⟨"sum.json"⟩
  config := some ⟨"strict.toml"⟩
  minMetric := some 2
  noParallel := true
  jobs := some 4
  includeGenerated := true
  plain := true

/-- The strict configuration with what the request asks for. -/
def lenient : Config :=
  { strict with
    rule := { minMetric := 2 }
    analysis := { parallel := false, jobs := 4, includeGenerated := true } }

def mixedSum : Diagnostic where
  methodName := "Run"
  metric := 2
  integrations := ["Load"]
  expressions := ["a + b"]
  integrationText := "- Integration: call to 'Load'\n"
  operationText := "- Operation: expression 'a + b'\n"
  location := ⟨⟨"Sum.cs"⟩, { startLine := 3, startColumn := 5, endLine := 6, endColumn := 6 }⟩

theorem load_sum : sum.load = .ok sum.loaded := FileModel.load_eq_ok_iff.2 ⟨by decide, rfl⟩

theorem judge_sum :
    (sum.loaded.judge (ExclusionSettings.table {}) { name := "Run", body := some 0 } .unlimited).1 =
      .violation mixedSum := by
  have hcalls : sum.loaded.calls 0 = [2] := by decide +kernel
  rw [SourceFile.judge_of_findings load_sum _ { name := "Run", body := some 0 } 0
    [.integration "Load"] ["a + b"] (by decide +kernel) (by rw [hcalls]; decide +kernel)
    (by decide +kernel) (by decide) (by decide)]
  decide +kernel

theorem reads_overSum : overSum.Reads withSum strict [sum.loaded] := by
  have hstored : withSum.Stores ⟨"sum.json"⟩ ⟨[sum]⟩ :=
    Machine.stores_of_readText? (Machine.fromUTF8?_toUTF8 _) (by decide)
  have hload : (ProgramModel.mk [sum]).load = .ok [sum.loaded] := by
    rw [ProgramModel.load, Traversal.mapM_cons_of_ok load_sum]
    rfl
  have hfiles : withSum.filesIn ⟨"sum.json"⟩ = .ok [sum.loaded] := by
    rw [Machine.filesIn_of_stores hstored, hload]
    rfl
  have hread : withSum.readText? ⟨"strict.toml"⟩ = some strictText := Machine.fromUTF8?_toUTF8 _
  have hparsed : Config.ofToml? strictText = some strict := by decide +kernel
  refine ⟨?_, [[sum.loaded]], .cons hfiles .nil, by simp⟩
  rw [overSum, Machine.configuration, hread]
  dsimp only
  rw [hparsed]

theorem covers_lenient :
    Report.Covers { filesAnalyzed := 1, methodsAnalyzed := 1, diagnostics := [mixedSum] } lenient
      [sum.loaded] := by
  have hdeclared : declared [sum.loaded] = [(sum.loaded, { name := "Run", body := some 0 })] := rfl
  have hreported : lenient.reported? (sum.loaded, { name := "Run", body := some 0 }) =
      some mixedSum :=
    Config.reported?_eq_some_iff.2 ⟨rfl, fun _ => rfl, judge_sum, by decide⟩
  refine ⟨rfl, by rw [hdeclared]; rfl, ?_⟩
  rw [hdeclared, List.filterMap_cons, hreported]
  rfl

/-- Under the strict configuration alone the method would not be reported. With what the request
asks for it is, and the page takes the place of the model. -/
theorem check_all_or_nothing_overSum :
    withSum.configuration overSum.config = .ok strict ∧ overSum.Overrides strict lenient ∧
    strict.reported? (sum.loaded, { name := "Run", body := some 0 }) = none ∧
    ∃ after, withSum.run (Command.check overSum) =
        (.ok { filesAnalyzed := 1, methodsAnalyzed := 1, diagnostics := [mixedSum] }, after) ∧
      after.readText? ⟨"sum.json"⟩ = some
        ("# IOSP Report\n\n1 violation(s) in 1 method(s) across 1 file(s).\n\n" ++
          "| Location | Method | Metric |\n|----------|--------|--------|\n" ++
          "| Sum.cs:3:5 | `Run` | 2 |\n\n## `Run`\n\n" ++
          "Method 'Run' mixes integration with operation (metric 2).\n\n" ++
          "- Integration: call to 'Load'\n- Operation: expression 'a + b'\n") ∧
      after.output = "" := by
  have hoverrides : overSum.Overrides strict lenient := overrides_iff.2 rfl
  have hcolours : overSum.Colours withSum strict false := colours_iff.2 rfl
  have hgives := Gives.intro reads_overSum hoverrides covers_lenient (.inl rfl) hcolours .markdown
  obtain ⟨hends, -, -⟩ := check_all_or_nothing overSum withSum
  have hrun := (hends _ _).2 (.written hgives rfl rfl)
  refine ⟨reads_overSum.config, hoverrides, rfl, _, hrun, ?_, rfl⟩
  rw [Machine.readText?_put_file rfl]
  decide +kernel

end CheckRequest

end MethodRoles
