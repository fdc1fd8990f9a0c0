import MethodRoles.Proofs.Model.Loading
import MethodRoles.Proofs.Report.Parts
import MethodRoles.Proofs.Role.Classification

/-!
# The least metric that is reported

A method that mixes the roles has a metric of at least one, and one that does not has a metric of
zero. So an analyzer that asks for a higher metric leaves out the diagnostics below it and changes
nothing else, and to ask for a metric of one is to ask for nothing.
-/
namespace MethodRoles

theorem severity_eq_zero_iff {integrations operations expressions : Nat} :
    severity integrations operations expressions = 0 ↔
      integrations = 0 ∨ (operations = 0 ∧ expressions = 0) := by
  by_cases hi : integrations = 0
  · simp [severity, hi]
  by_cases ho : operations = 0 ∧ expressions = 0
  · simp [severity, ho]
  -- what is left is at least one, whichever of the roles is the smaller one
  simp only [severity, hi, ho, if_false, or_self, iff_false]
  split <;> omega

namespace Evidence

theorem metric_eq_zero_iff (e : Evidence) : e.metric = 0 ↔ e.isViolation = false := by
  have hempty : ∀ s : Seen, s.size = 0 ↔ s.isEmpty = true := by
    intro s
    simp [Seen.size, Seen.isEmpty]
  rw [metric, severity_eq_zero_iff, hempty, hempty, hempty, isViolation]
  cases e.integrations.isEmpty <;> cases e.operations.isEmpty <;> cases e.expressions.isEmpty <;>
    simp

end Evidence

theorem Outcome.diagnostic?_eq_some_iff {o : Outcome} {d : Diagnostic} :
    o.diagnostic? = some d ↔ o = .violation d := by
  cases o <;> simp [diagnostic?]

theorem SourceFile.metric_pos_of_violation {f : SourceFile} {table : ExclusionTable} {m : Method}
    {d : Diagnostic} (h : (f.judge table m .unlimited).1 = .violation d) : 0 < d.metric := by
  obtain ⟨body, -, hviolation, rfl⟩ := judge_unlimited_eq_violation h
  refine Nat.pos_of_ne_zero fun hzero => ?_
  rw [(Evidence.metric_eq_zero_iff _).1 hzero] at hviolation
  cases hviolation

namespace Analyzer

variable {a : Analyzer} {f : SourceFile} {low high : Nat}

theorem report?_of_le (h : low ≤ high) (m : Method) :
    { a with minMetric := high }.report? .unlimited f m =
      ({ a with minMetric := low }.report? .unlimited f m).filter (high ≤ ·.metric) := by
  rw [report?, report?, Option.filter_filter]
  congr 1
  funext d
  dsimp only
  rw [← Bool.decide_and, decide_eq_decide]
  omega

theorem diagnostics_of_le (h : low ≤ high) :
    { a with minMetric := high }.diagnostics .unlimited f =
      ({ a with minMetric := low }.diagnostics .unlimited f).filter (high ≤ ·.metric) := by
  rw [diagnostics_eq, diagnostics_eq, funext (report?_of_le h)]
  split
  · rfl
  · split
    · rfl
    · rw [List.filter_filterMap]

theorem metric_pos_of_mem_diagnostics {d : Diagnostic} (h : d ∈ a.diagnostics .unlimited f) :
    0 < d.metric := by
  rw [diagnostics_eq] at h
  split at h
  · cases h
  · split at h
    · cases h
    · obtain ⟨m, -, hm⟩ := List.mem_filterMap.1 h
      have hjudged := (Option.filter_eq_some_iff.1 hm).1
      exact SourceFile.metric_pos_of_violation (Outcome.diagnostic?_eq_some_iff.1 hjudged)

/-- The metric is zero exactly for evidence of no violation. The diagnostics with a higher least
metric are those with a lower one, less the ones below it; a least metric of one leaves out none. -/
theorem minMetric_is_threshold (a : Analyzer) (f : SourceFile) {low high : Nat} (h : low ≤ high) :
    (∀ e : Evidence, e.metric = 0 ↔ e.isViolation = false) ∧
    { a with minMetric := high }.diagnostics .unlimited f =
      ({ a with minMetric := low }.diagnostics .unlimited f).filter (high ≤ ·.metric) ∧
    { a with minMetric := 0 }.diagnostics .unlimited f =
      { a with minMetric := 1 }.diagnostics .unlimited f := by
  refine ⟨Evidence.metric_eq_zero_iff, diagnostics_of_le h, ?_⟩
  have hone : { a with minMetric := 1 }.diagnostics .unlimited f =
      ({ a with minMetric := 0 }.diagnostics .unlimited f).filter (1 ≤ ·.metric) :=
    diagnostics_of_le (Nat.zero_le 1)
  rw [hone, List.filter_eq_self.2]
  intro d hd
  exact decide_eq_true (metric_pos_of_mem_diagnostics hd)

/-- A method that calls another one and prints. -/
def showing : FileModel where
  path := ⟨"Show.cs"⟩
  nodes :=
    [{ kind := .block, children := [1, 2] }, { kind := .invocation }, { kind := .invocation }]
  methods := [{ name := "Show", body := some 0 }]
  calls :=
    [{ node := 1, target := .user "Load" },
      { node := 2, target := .external "System" "Console" "Write" }]

theorem judge_showing :
    ∃ d, (showing.loaded.judge .empty { name := "Show", body := some 0 } .unlimited).1 =
      .violation d ∧
      d.metric = 1 := by
  have hload : showing.load = .ok showing.loaded := FileModel.load_eq_ok_iff.2 ⟨by decide, rfl⟩
  have hcalls : showing.loaded.calls 0 = [1, 2] := by decide +kernel
  have hjudge := SourceFile.judge_of_findings hload .empty { name := "Show", body := some 0 } 0
    [.integration "Load", .operation "Write"] [] (by decide +kernel) (by rw [hcalls]; decide)
    (by decide +kernel) (by decide) (by decide)
  exact ⟨_, hjudge, by decide⟩

theorem minMetric_is_threshold_showing :
    ∃ d, { exclusions := .empty, minMetric := 1 : Analyzer }.diagnostics .unlimited showing.loaded =
      [d] ∧
      d.metric = 1 ∧
      { exclusions := .empty, minMetric := 2 : Analyzer }.diagnostics .unlimited showing.loaded =
        [] := by
  obtain ⟨d, hjudge, hmetric⟩ := judge_showing
  have hreport : { exclusions := .empty, minMetric := 1 : Analyzer }.report? .unlimited
      showing.loaded
      { name := "Show", body := some 0 } = some d :=
    Option.filter_eq_some_iff.2 ⟨Outcome.diagnostic?_eq_some_iff.2 hjudge, by simp [hmetric]⟩
  have hlow : { exclusions := .empty, minMetric := 1 : Analyzer }.diagnostics .unlimited
      showing.loaded =
      [d] := by
    have hmethods : showing.loaded.methods = [{ name := "Show", body := some 0 }] := rfl
    have hgenerated : showing.loaded.generated = false := rfl
    simp [diagnostics_eq, hgenerated, hmethods, hreport]
  obtain ⟨-, hhigh, -⟩ := minMetric_is_threshold { exclusions := .empty } showing.loaded
    (by decide : 1 ≤ 2)
  refine ⟨d, hlow, hmetric, ?_⟩
  rw [hhigh, hlow]
  simp [hmetric]

end Analyzer

end MethodRoles
