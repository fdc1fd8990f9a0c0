import MethodRoles.Proofs.Command.Reading
import MethodRoles.Proofs.Model.Loading
import MethodRoles.Proofs.Report.Parts
import MethodRoles.Proofs.Role.Classification

/-!
# Programs in several models

A program may be given as one model or as several. Both ways the same files are loaded, or the same
fault is found, which is the first in the files of all models. The report on the program puts the
reports on its parts one after the other.
-/
namespace MethodRoles

namespace ProgramModel

/-- The model with the files of all given models. -/
def join (models : List ProgramModel) : ProgramModel where
  files := models.flatMap (·.files)

theorem load_join (models : List ProgramModel) :
    (join models).load = (models.mapM load).map List.flatten := by
  induction models with
  | nil => rfl
  | cons model models ih =>
    have hjoin : (join (model :: models)).load = do
        return (← model.load) ++ (← (join models).load) := List.mapM_append
    rw [hjoin, ih]
    cases hload : model.load with
    | error e =>
      rw [Traversal.mapM_cons_of_error hload]
      rfl
    | ok files =>
      rw [Traversal.mapM_cons_of_ok hload]
      cases models.mapM load <;> rfl

theorem flatMap_methods_of_forall₂ {fileModels : List FileModel} {files : List SourceFile}
    (h : List.Forall₂ (fun file f => file.load = .ok f) fileModels files) :
    files.flatMap (·.methods) = fileModels.flatMap (·.methods) := by
  induction h with
  | nil => rfl
  | @cons file f fileModels files hf _ ih =>
    have hmethods : f.methods = file.methods := (FileModel.represents_of_load hf).methods
    rw [List.flatMap_cons, List.flatMap_cons, hmethods, ih]

/-- The files that are loaded have the methods of the model, in their order. -/
theorem declared_of_load {model : ProgramModel} {files : List SourceFile}
    (h : model.load = .ok files) :
    files.length = model.files.length ∧
    (declared files).map Prod.snd = model.files.flatMap (·.methods) := by
  have hfiles := Traversal.mapM_eq_ok_iff.1 h
  refine ⟨hfiles.length_eq.symm, ?_⟩
  rw [map_snd_declared]
  exact flatMap_methods_of_forall₂ hfiles

end ProgramModel

namespace Machine

variable {m : Machine}

theorem mapM_modelIn_of_stores {paths : List Path} {models : List ProgramModel}
    (h : List.Forall₂ m.Stores paths models) :
    match models.mapM ProgramModel.load with
    | .ok parts => paths.mapM m.modelIn = .ok parts
    | .error e => ∃ p ∈ paths, paths.mapM m.modelIn = .error (.model p (.invalid e)) := by
  induction h with
  | nil => rfl
  | @cons p model paths models hp _ ih =>
    have hmodel := modelIn_of_stores hp
    cases hload : model.load with
    | error e =>
      rw [hload] at hmodel
      rw [Traversal.mapM_cons_of_error hload]
      exact ⟨p, List.mem_cons_self, Traversal.mapM_cons_of_error hmodel paths⟩
    | ok files =>
      rw [hload] at hmodel
      rw [Traversal.mapM_cons_of_ok hload, Traversal.mapM_cons_of_ok hmodel]
      cases hrest : models.mapM ProgramModel.load with
      | ok parts =>
        rw [hrest] at ih
        exact congrArg (Except.map (files :: ·)) ih
      | error e =>
        rw [hrest] at ih
        obtain ⟨q, hq, hfault⟩ := ih
        exact ⟨q, List.mem_cons_of_mem p hq, congrArg (Except.map (files :: ·)) hfault⟩

/-- Models are loaded one after the other as they would be in one. -/
theorem run_loadModels_of_stores {paths : List Path} {models : List ProgramModel}
    (h : List.Forall₂ m.Stores paths models) :
    match (ProgramModel.join models).load with
    | .ok files => m.run (Command.loadModels paths) = (.ok files, m)
    | .error e =>
      ∃ p ∈ paths, m.run (Command.loadModels paths) = (.error (.model p (.invalid e)), m) := by
  have hmodels := mapM_modelIn_of_stores h
  rw [ProgramModel.load_join, run_loadModels]
  cases hload : models.mapM ProgramModel.load with
  | ok parts =>
    rw [hload] at hmodels
    rw [hmodels]
    rfl
  | error e =>
    rw [hload] at hmodels
    obtain ⟨p, hp, hfault⟩ := hmodels
    refine ⟨p, hp, ?_⟩
    rw [hfault]
    rfl

end Machine

namespace ProgramModel

/-- It does not matter how a program is split into models. They are loaded as the model that joins
them, with the same error if there is one. The report adds up the counts for the parts and lists
their diagnostics in order: for each method at most one, and none behind the gates for the rule and
for generated files. -/
theorem splitting_changes_nothing (c : Config) (models : List ProgramModel) :
    let joined := join models
    (∀ (m : Machine) (paths : List Path), List.Forall₂ m.Stores paths models →
      match joined.load with
      | .ok files => m.run (Command.loadModels paths) = (.ok files, m)
      | .error e =>
        ∃ p ∈ paths, m.run (Command.loadModels paths) = (.error (.model p (.invalid e)), m)) ∧
    joined.load = (models.mapM load).map List.flatten ∧
    ∀ parts, models.mapM load = .ok parts →
      let files := parts.flatten
      let report := Report.ofFiles c files
      report = Report.concat (parts.map (Report.ofFiles c)) ∧
      report.filesAnalyzed = joined.files.length ∧
      report.methodsAnalyzed = (joined.files.flatMap (·.methods)).length ∧
      (declared files).map Prod.snd = joined.files.flatMap (·.methods) ∧
      report.diagnostics = (declared files).filterMap c.reported? ∧
      (∀ f method d, c.reported? (f, method) = some d ↔
        c.rule.enabled = true ∧ (f.generated = true → c.analysis.includeGenerated = true) ∧
          (f.judge c.exclusions.table method .unlimited).1 = .violation d ∧
          c.rule.minMetric ≤ d.metric) ∧
      ∀ parallel jobs,
        Report.ofFiles { c with analysis := { c.analysis with parallel, jobs } } files =
          report := by
  refine ⟨fun m paths hstored => Machine.run_loadModels_of_stores hstored, load_join models, ?_⟩
  intro parts hparts
  have hload : (join models).load = .ok parts.flatten := by
    rw [load_join, hparts]
    rfl
  obtain ⟨hlength, hmethods⟩ := declared_of_load hload
  have hreport := Report.ofFiles_eq c parts.flatten
  refine ⟨Report.ofFiles_flatten c parts, hlength, ?_, hmethods, ?_,
    fun f method d => Config.reported?_eq_some_iff, ?_⟩
  · rw [hreport, ← hmethods, List.length_map]
  · rw [hreport]
  · intro parallel jobs
    rw [hreport]
    exact Report.ofFiles_eq _ _

/-- A generated file with a method that has no body. -/
def counters : FileModel where
  path := ⟨"Counters.cs"⟩
  generated := true
  nodes := []
  methods := [{ name := "Count" }]

/-- A method that calls another one and computes, and one without a body. -/
def totals : FileModel where
  path := ⟨"Totals.cs"⟩
  nodes :=
    [{ kind := .block, children := [1, 2] }, { kind := .binaryExpression, text := "a + b" },
      { kind := .invocation, text := "Load()" }]
  methods := [{ name := "Run", body := some 0 }, { name := "Stop" }]
  calls := [{ node := 2, target := .user "Load" }]

def countersAndTotals : Machine :=
  (Machine.empty.put ["counters.json"] (.file (mk [counters]).toJson.toUTF8)).put ["totals.json"]
    (.file (mk [totals]).toJson.toUTF8)

def mixedTotals : Diagnostic where
  methodName := "Run"
  metric := 2
  integrations := ["Load"]
  expressions := ["a + b"]
  integrationText := "- Integration: call to 'Load'\n"
  operationText := "- Operation: expression 'a + b'\n"
  location := ⟨⟨"Totals.cs"⟩, {}⟩

theorem load_totals : totals.load = .ok totals.loaded :=
  FileModel.load_eq_ok_iff.2 ⟨by decide, rfl⟩

theorem ofFiles_counters :
    Report.ofFiles {} [counters.loaded] = { filesAnalyzed := 1, methodsAnalyzed := 1 } := by
  rw [Report.ofFiles_eq]
  rfl

theorem ofFiles_totals :
    Report.ofFiles {} [totals.loaded] =
      { filesAnalyzed := 1, methodsAnalyzed := 2, diagnostics := [mixedTotals] } := by
  have hcalls : totals.loaded.calls 0 = [2] := by decide +kernel
  have hdeclared : declared [totals.loaded] =
      [(totals.loaded, { name := "Run", body := some 0 }), (totals.loaded, { name := "Stop" })] :=
    rfl
  have hrun : (totals.loaded.judge (ExclusionSettings.table {}) { name := "Run", body := some 0 }
      .unlimited).1 = .violation mixedTotals := by
    rw [SourceFile.judge_of_findings load_totals _ { name := "Run", body := some 0 } 0
      [.integration "Load"] ["a + b"] (by decide +kernel) (by rw [hcalls]; decide +kernel)
      (by decide +kernel) (by decide) (by decide)]
    decide +kernel
  have hreported : Config.reported? {} (totals.loaded, { name := "Run", body := some 0 }) =
      some mixedTotals :=
    Config.reported?_eq_some_iff.2 ⟨rfl, fun h => absurd h (by decide), hrun, by decide⟩
  have hstop : Config.reported? {} (totals.loaded, { name := "Stop" }) = none := rfl
  rw [Report.ofFiles_eq, hdeclared, List.filterMap_cons, hreported, List.filterMap_cons, hstop]
  rfl

/-- Two models are loaded and reported on as one; the first has nothing to report. -/
theorem splitting_changes_nothing_countersAndTotals :
    let paths : List Path := [⟨"counters.json"⟩, ⟨"totals.json"⟩]
    List.Forall₂ countersAndTotals.Stores paths [⟨[counters]⟩, ⟨[totals]⟩] ∧
    [mk [counters], mk [totals]].mapM load = .ok [[counters.loaded], [totals.loaded]] ∧
    countersAndTotals.run (Command.loadModels paths) =
      (.ok [counters.loaded, totals.loaded], countersAndTotals) ∧
    Report.ofFiles {} [counters.loaded] = { filesAnalyzed := 1, methodsAnalyzed := 1 } ∧
    Report.ofFiles {} [totals.loaded] =
      { filesAnalyzed := 1, methodsAnalyzed := 2, diagnostics := [mixedTotals] } ∧
    Report.ofFiles {} [counters.loaded, totals.loaded] =
      { filesAnalyzed := 2, methodsAnalyzed := 3, diagnostics := [mixedTotals] } := by
  have hstored : List.Forall₂ countersAndTotals.Stores [⟨"counters.json"⟩, ⟨"totals.json"⟩]
      [⟨[counters]⟩, ⟨[totals]⟩] :=
    .cons (Machine.stores_of_readText? (Machine.fromUTF8?_toUTF8 _) (by decide))
      (.cons (Machine.stores_of_readText? (Machine.fromUTF8?_toUTF8 _) (by decide)) .nil)
  have hload : [mk [counters], mk [totals]].mapM load =
      .ok [[counters.loaded], [totals.loaded]] := rfl
  obtain ⟨hrun, -, hreport⟩ := splitting_changes_nothing {} [mk [counters], mk [totals]]
  obtain ⟨hconcat, -⟩ := hreport _ hload
  refine ⟨hstored, hload, hrun _ _ hstored, ofFiles_counters, ofFiles_totals, hconcat.trans ?_⟩
  rw [List.map_cons, List.map_cons, List.map_nil, ofFiles_counters, ofFiles_totals]
  rfl

end ProgramModel

end MethodRoles
