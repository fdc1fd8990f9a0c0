import MethodRoles.Report
import MethodRoles.Role.Analyzer

/-!
# Reports on parts of a program

A report goes through the methods of all files, in the order of the files and of the declarations in
them. It tells of each method on its own. So the report on a program is made of the reports on its
parts, and no worker leaves a trace in it.
-/
namespace MethodRoles

/-!
## Work that is shared out

What workers bring back does not depend on how many there are, or on whether they work side by side,
when the work on a list is the work on its parts, one after the other. An analyzer works in this way
on the methods of a file and on files.
-/

namespace Workers

variable {α β : Type} {work : List α → List β}

theorem flatMap_shares (hnil : work [] = [])
    (happend : ∀ xs ys, work (xs ++ ys) = work xs ++ work ys)
    (size : Nat) (items : List α) : (shares size items).flatMap work = work items := by
  fun_induction shares size items with
  | case1 => exact hnil.symm
  | case2 x xs ih => rw [List.flatMap_cons, ih, ← happend, List.cons_append, List.take_append_drop]

theorem gather_eq (w : Workers) (hnil : work [] = [])
    (happend : ∀ xs ys, work (xs ++ ys) = work xs ++ work ys) (items : List α) :
    w.gather work items = work items := by
  rw [gather.eq_def]
  split
  · simp only [List.flatMap_map]
    exact flatMap_shares hnil happend (w.shareSize items.length) items
  · rfl

end Workers

namespace Analyzer

theorem diagnostics_eq (a : Analyzer) (b : Budget) (f : SourceFile) :
    a.diagnostics b f =
      if !a.enabled then []
      else if f.generated && !a.includeGenerated then []
      else f.methods.filterMap (a.report? b f) := by
  rw [diagnostics, a.workers.gather_eq List.filterMap_nil fun _ _ => List.filterMap_append]

theorem diagnosticsOfAll_eq (a : Analyzer) (b : Budget) (files : List SourceFile) :
    a.diagnosticsOfAll b files = files.flatMap (a.diagnostics b) :=
  a.workers.gather_eq List.flatMap_nil (fun _ _ => List.flatMap_append) files

end Analyzer

/-! ## Reports on parts -/

/-- The methods of some files, file after file. -/
def declared (files : List SourceFile) : List (SourceFile × Method) :=
  files.flatMap fun f => f.methods.map fun m => (f, m)

theorem map_snd_declared (files : List SourceFile) :
    (declared files).map Prod.snd = files.flatMap (·.methods) := by
  simp [declared, List.map_flatMap, Function.comp_def]

theorem length_declared (files : List SourceFile) :
    (declared files).length = files.foldr (·.methods.length + ·) 0 := by
  induction files with
  | nil => rfl
  | cons f files ih =>
    rw [declared] at ih ⊢
    rw [List.flatMap_cons, List.length_append, List.length_map, List.foldr_cons, ih]

theorem declared_append (files more : List SourceFile) :
    declared (files ++ more) = declared files ++ declared more :=
  List.flatMap_append

/-- What a report tells of a method: its diagnostic, if it is a violation with a sufficient metric.
It tells nothing if the rule is disabled, or if the file is generated and such files are not to be
included. -/
def Config.reported? (c : Config) (declaration : SourceFile × Method) : Option Diagnostic :=
  let (f, m) := declaration
  if c.rule.enabled && (!f.generated || c.analysis.includeGenerated) then
    match (f.judge c.exclusions.table m .unlimited).1 with
    | .violation d => if c.rule.minMetric ≤ d.metric then some d else none
    | .clean | .skipped _ => none
  else none

theorem Config.reported?_eq_some_iff {c : Config} {f : SourceFile} {m : Method} {d : Diagnostic} :
    c.reported? (f, m) = some d ↔
      c.rule.enabled = true ∧ (f.generated = true → c.analysis.includeGenerated = true) ∧
        (f.judge c.exclusions.table m .unlimited).1 = .violation d ∧
        c.rule.minMetric ≤ d.metric := by
  have hgate : (c.rule.enabled && (!f.generated || c.analysis.includeGenerated)) = true ↔
      c.rule.enabled = true ∧ (f.generated = true → c.analysis.includeGenerated = true) := by
    cases f.generated <;> simp
  rw [← and_assoc, ← hgate, reported?]
  split
  · next hopen =>
    cases (f.judge c.exclusions.table m .unlimited).1 with
    | violation d' =>
      simp only [hopen, true_and, Outcome.violation.injEq]
      grind
    | clean => simp
    | skipped reason => simp
  · next hclosed => simp [hclosed]

namespace Analyzer

theorem report?_ofConfig (c : Config) (f : SourceFile) (m : Method) :
    (ofConfig c).report? .unlimited f m =
      match (f.judge c.exclusions.table m .unlimited).1 with
      | .violation d => if c.rule.minMetric ≤ d.metric then some d else none
      | .clean | .skipped _ => none := by
  have hreport : (ofConfig c).report? .unlimited f m =
      ((f.judge c.exclusions.table m .unlimited).1.diagnostic?).filter
        (c.rule.minMetric ≤ ·.metric) := rfl
  rw [hreport]
  cases (f.judge c.exclusions.table m .unlimited).1 <;>
    simp [Outcome.diagnostic?, Option.filter_some]

/-- The two gates in front of the methods of a file are the same for each of them. -/
theorem diagnostics_ofConfig (c : Config) (f : SourceFile) :
    (ofConfig c).diagnostics .unlimited f = f.methods.filterMap fun m => c.reported? (f, m) := by
  have hgates : (ofConfig c).diagnostics .unlimited f =
      if !c.rule.enabled then []
      else if f.generated && !c.analysis.includeGenerated then []
      else f.methods.filterMap ((ofConfig c).report? .unlimited f) :=
        (ofConfig c).diagnostics_eq _ f
  rw [hgates, funext (report?_ofConfig c f)]
  cases hrule : c.rule.enabled <;> cases hfile : f.generated <;>
    cases hinclude : c.analysis.includeGenerated <;> simp [Config.reported?, hrule, hfile, hinclude]

end Analyzer

namespace Report

/-- A report counts all files and all methods, and tells of each method on its own. -/
theorem ofFiles_eq (c : Config) (files : List SourceFile) :
    ofFiles c files =
      { filesAnalyzed := files.length
        methodsAnalyzed := (declared files).length
        diagnostics := (declared files).filterMap c.reported? } := by
  rw [ofFiles, Analyzer.diagnosticsOfAll_eq, funext (Analyzer.diagnostics_ofConfig c),
    length_declared, declared, List.filterMap_flatMap]
  simp only [List.filterMap_map, Function.comp_def]

/-- A report counts the files and their methods, and has the diagnostic of each method that is to be
reported, in order. -/
structure Covers (r : Report) (c : Config) (files : List SourceFile) : Prop where
  filesAnalyzed : r.filesAnalyzed = files.length
  methodsAnalyzed : r.methodsAnalyzed = (declared files).length
  diagnostics : r.diagnostics = (declared files).filterMap c.reported?

theorem covers_iff {r : Report} {c : Config} {files : List SourceFile} :
    r.Covers c files ↔ r = ofFiles c files := by
  rw [ofFiles_eq]
  constructor
  · rintro ⟨hfiles, hmethods, hdiagnostics⟩
    cases r
    simp_all
  · rintro rfl
    exact ⟨rfl, rfl, rfl⟩

/-- The reports on parts as one report. -/
def concat (reports : List Report) : Report where
  filesAnalyzed := reports.foldr (·.filesAnalyzed + ·) 0
  methodsAnalyzed := reports.foldr (·.methodsAnalyzed + ·) 0
  diagnostics := reports.flatMap (·.diagnostics)

theorem ofFiles_flatten (c : Config) (parts : List (List SourceFile)) :
    ofFiles c parts.flatten = concat (parts.map (ofFiles c)) := by
  induction parts with
  | nil => rw [List.flatten_nil, ofFiles_eq]; rfl
  | cons files parts ih =>
    rw [ofFiles_eq, concat, Report.mk.injEq] at ih
    obtain ⟨hfiles, hmethods, hdiagnostics⟩ := ih
    rw [List.flatten_cons, ofFiles_eq, declared_append, List.length_append, List.length_append,
      List.filterMap_append, hfiles, hmethods, hdiagnostics, concat, List.map_cons, List.foldr_cons,
      List.foldr_cons, List.flatMap_cons, ofFiles_eq c files]

end Report

end MethodRoles
