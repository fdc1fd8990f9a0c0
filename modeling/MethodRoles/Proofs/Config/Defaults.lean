import MethodRoles.Config.Basic
import MethodRoles.Json.Reader
import MethodRoles.Proofs.Data.Omission

/-!
# Defaults of configurations

What a configuration says by default need not be written. The defaults are given twice, for a
section that is missing and for each field of a section that is there. They agree, so that any
object that says what a configuration says beyond the defaults is decoded as that configuration.
-/
namespace MethodRoles

open Data FieldReader

section

variable {d : Dialect} {v : Value}

/-! ## Rules -/

namespace ExclusionRule

def parts (r : ExclusionRule) : List Part :=
  [.plain "category" (fun c => .str c.name) r.category .custom,
    .plain "namespace" (.ofOption .str) r.inNamespace none,
    .plain "type" (.ofOption .str) r.ofType none, .plain "name" (.ofOption .str) r.member none]

theorem written_toValue (r : ExclusionRule) : Written d r.parts r.toValue :=
  ⟨_, rfl, .of_kept (.keep rfl (.keep rfl (.keep rfl (.keep rfl .nil))))⟩

theorem ofValue?_of_written {r : ExclusionRule} (h : Written d r.parts v) :
    ofValue? d v = some r := by
  refine Reads.record ?_ (by simp [parts, Part.plain]) h
  refine .plain (ExclusionCategory.ofName?_name r.category) ?_
  refine .plain (Decode.nullable_text r.inNamespace) ?_
  refine .plain (Decode.nullable_text r.ofType) ?_
  exact .plain (Decode.nullable_text r.member) (.pure r)

end ExclusionRule

/-! ## Sections -/

namespace RuleSettings

def InRange (s : RuleSettings) : Prop := s.minMetric < Text.wordLimit

instance (s : RuleSettings) : Decidable s.InRange := inferInstanceAs (Decidable (_ < _))

def parts (s : RuleSettings) : List Part :=
  [.plain "enabled" .bool s.enabled (enabled {}),
    .plain "min_metric" .nat s.minMetric (minMetric {})]

theorem written_toValue (s : RuleSettings) : Written d s.parts s.toValue :=
  ⟨_, rfl, .of_kept (.keep rfl (.keep rfl .nil))⟩

theorem ofValue?_of_written {s : RuleSettings} (hs : s.InRange) (h : Written d s.parts v) :
    ofValue? d v = some s := by
  refine Reads.record ?_ (by simp [parts, Part.plain]) h
  refine .plain rfl ?_
  exact .plain (Decode.below_nat hs) (.pure s)

end RuleSettings

namespace ExclusionSettings

def parts (d : Dialect) (s : ExclusionSettings) : List Part :=
  [.plain "use_defaults" .bool s.useDefaults (useDefaults {}),
    { key := "rules"
      forms v := ∃ items, v = .arr items ∧ List.Forall₂ (fun r => Written d r.parts) s.rules items
      isDefault := s.rules = rules {} }]

theorem written_toValue (s : ExclusionSettings) : Written d (s.parts d) s.toValue := by
  have hrules : List.Forall₂ (fun r => Written d r.parts) s.rules
      (s.rules.map ExclusionRule.toValue) := by
    rw [List.forall₂_map_right_iff, List.forall₂_same]
    exact fun r _ => r.written_toValue
  exact ⟨_, rfl, .of_kept (.keep rfl (.keep ⟨_, rfl, hrules⟩ .nil))⟩

theorem ofValue?_of_written {s : ExclusionSettings} (h : Written d (s.parts d) v) :
    ofValue? d v = some s := by
  refine Reads.record ?_ (by simp [parts, Part.plain]) h
  refine .plain rfl (.part ?_ id (.pure s))
  rintro _ ⟨items, rfl, hitems⟩
  exact Decode.list_of_forall₂ (hitems.imp fun _ _ => ExclusionRule.ofValue?_of_written)

end ExclusionSettings

namespace AnalysisSettings

def InRange (s : AnalysisSettings) : Prop := s.jobs < Text.wordLimit

instance (s : AnalysisSettings) : Decidable s.InRange := inferInstanceAs (Decidable (_ < _))

def parts (s : AnalysisSettings) : List Part :=
  [.plain "parallel" .bool s.parallel (parallel {}), .plain "jobs" .nat s.jobs (jobs {}),
    .plain "include_generated" .bool s.includeGenerated (includeGenerated {})]

theorem written_toValue (s : AnalysisSettings) : Written d s.parts s.toValue :=
  ⟨_, rfl, .of_kept (.keep rfl (.keep rfl (.keep rfl .nil)))⟩

theorem ofValue?_of_written {s : AnalysisSettings} (hs : s.InRange) (h : Written d s.parts v) :
    ofValue? d v = some s := by
  refine Reads.record ?_ (by simp [parts, Part.plain]) h
  refine .plain rfl ?_
  refine .plain (Decode.below_nat hs) ?_
  exact .plain rfl (.pure s)

end AnalysisSettings

namespace OutputSettings

def parts (s : OutputSettings) : List Part :=
  [.plain "default_format" (.ofOption fun f => .str f.name) s.defaultFormat (defaultFormat {}),
    .plain "use_color" (.ofOption .bool) s.useColor (useColor {})]

theorem written_toValue (s : OutputSettings) : Written d s.parts s.toValue :=
  ⟨_, rfl, .of_kept (.keep rfl (.keep rfl .nil))⟩

theorem ofValue?_of_written {s : OutputSettings} (h : Written d s.parts v) :
    ofValue? d v = some s := by
  refine Reads.record ?_ (by simp [parts, Part.plain]) h
  refine .plain (Decode.nullable_ofOption (by simp) fun f _ => ReportFormat.ofName?_name f) ?_
  exact .plain (Decode.nullable_ofOption (by simp) fun _ _ => rfl) (.pure s)

end OutputSettings

end

/-! ## Whole configurations -/

namespace Config

/-- Numbers fit into 64 bits. -/
def InRange (c : Config) : Prop := c.rule.InRange ∧ c.analysis.InRange

instance (c : Config) : Decidable c.InRange := inferInstanceAs (Decidable (_ ∧ _))

def parts (d : Dialect) (c : Config) : List Part :=
  [{ key := "rule", forms := Written d c.rule.parts, isDefault := c.rule = {} },
    { key := "exclusions", forms := Written d (c.exclusions.parts d),
      isDefault := c.exclusions = {} },
    { key := "analysis", forms := Written d c.analysis.parts, isDefault := c.analysis = {} },
    { key := "output", forms := Written d c.output.parts, isDefault := c.output = {} }]

variable {d : Dialect} {v : Value}

theorem written_toValue (c : Config) : Written d (c.parts d) c.toValue := by
  refine ⟨_, rfl, .of_kept (.keep ?_ (.keep ?_ (.keep ?_ (.keep ?_ .nil))))⟩
  · exact c.rule.written_toValue
  · exact c.exclusions.written_toValue
  · exact c.analysis.written_toValue
  · exact c.output.written_toValue

theorem ofValue?_of_written {c : Config} (hc : c.InRange) (h : Written d (c.parts d) v) :
    ofValue? d v = some c := by
  refine Reads.record ?_ (by simp [parts]) h
  refine .part (fun _ => RuleSettings.ofValue?_of_written hc.1) id ?_
  refine .part (fun _ => ExclusionSettings.ofValue?_of_written) id ?_
  refine .part (fun _ => AnalysisSettings.ofValue?_of_written hc.2) id ?_
  exact .part (fun _ => OutputSettings.ofValue?_of_written) id (.pure c)

/-- A default section may be added to an object that lacks it. -/
theorem ofValue?_cons_section {p : Part} (hp : p ∈ parts d {}) (hv : p.forms v)
    {members : List (String × Value)} (hmissing : p.key ∉ members.map Prod.fst) :
    ofValue? d (.obj ((p.key, v) :: members)) = ofValue? d (.obj members) := by
  refine Redundant.record ?_ d hmissing
  simp only [parts, List.mem_cons, List.not_mem_nil, or_false] at hp
  obtain rfl | rfl | rfl | rfl := hp
  · exact .of_default (RuleSettings.ofValue?_of_written (by decide) hv)
  · refine .of_next (by simp) fun _ => ?_
    exact .of_default (ExclusionSettings.ofValue?_of_written hv)
  · refine .of_next (by simp) fun _ => .of_next (by simp) fun _ => ?_
    exact .of_default (AnalysisSettings.ofValue?_of_written (by decide) hv)
  · refine .of_next (by simp) fun _ => .of_next (by simp) fun _ => .of_next (by simp) fun _ => ?_
    exact .of_default (OutputSettings.ofValue?_of_written hv)

/-- A default section can be written in full and with nothing in it. -/
theorem exists_default_part {sections : List (String × Value)} (h : toValue {} = .obj sections)
    {m : String × Value} (hm : m ∈ sections) :
    ∃ p ∈ parts d {}, p.key = m.1 ∧ p.forms m.2 ∧ p.forms (.obj []) := by
  cases h
  simp only [List.mem_cons, List.not_mem_nil, or_false] at hm
  obtain rfl | rfl | rfl | rfl := hm
  · exact ⟨_, .head _, rfl, RuleSettings.written_toValue {},
      _, rfl, .of_kept (.leaveOut rfl (.leaveOut rfl .nil))⟩
  · exact ⟨_, .tail _ (.head _), rfl, ExclusionSettings.written_toValue {},
      _, rfl, .of_kept (.leaveOut rfl (.leaveOut rfl .nil))⟩
  · exact ⟨_, .tail _ (.tail _ (.head _)), rfl, AnalysisSettings.written_toValue {},
      _, rfl, .of_kept (.leaveOut rfl (.leaveOut rfl (.leaveOut rfl .nil)))⟩
  · exact ⟨_, .tail _ (.tail _ (.tail _ (.head _))), rfl, OutputSettings.written_toValue {},
      _, rfl, .of_kept (.leaveOut rfl (.leaveOut rfl .nil))⟩

/-- A configuration is decoded from its full form and from what is left of it without any of the
parts that are defaults, in any order and among unknown keys. A section that is missing, an empty
one and a default one that is written in full decode alike, whatever the rest of the object is. -/
theorem defaults_can_be_omitted (d : Dialect) :
    (∀ c : Config, c.InRange → ∀ v, Written d (c.parts d) v → ofValue? d v = some c) ∧
    (∀ c : Config, Written d (c.parts d) c.toValue) ∧
    ∀ sections, toValue {} = .obj sections → ∀ m ∈ sections, ∀ members, m.1 ∉ members.map Prod.fst →
      ofValue? d (.obj (m :: members)) = ofValue? d (.obj members) ∧
      ofValue? d (.obj ((m.1, .obj []) :: members)) = ofValue? d (.obj members) := by
  refine ⟨fun c hc v => ofValue?_of_written hc, written_toValue,
    fun sections hsections m hm members hmissing => ?_⟩
  obtain ⟨p, hp, hkey, hfull, hempty⟩ := exists_default_part (d := d) hsections hm
  obtain ⟨name, full⟩ := m
  cases hkey
  exact ⟨ofValue?_cons_section hp hfull hmissing, ofValue?_cons_section hp hempty hmissing⟩

/-- Two rules and two settings that are not the default. -/
def strict : Config where
  rule := { minMetric := 2 }
  exclusions :=
    { rules := [{ inNamespace := some "NLog" }, { category := .logging, member := some "Write" }] }
  output := { useColor := some false }

/-- What is left without the defaults, from back to front and with unknown keys. -/
def strictValue : Value :=
  .obj
    [("comment", .void), ("output", .obj [("use_color", .bool false)]),
      ("exclusions", .obj [("rules", .arr
        [.obj [("namespace", .str "NLog")],
          .obj [("since", .nat 2), ("name", .str "Write"), ("category", .str "logging")]])]),
      ("rule", .obj [("min_metric", .nat 2)])]

theorem defaults_can_be_omitted_strict :
    strict.InRange ∧ Written Json.dialect (strict.parts Json.dialect) strictValue ∧
    ofValue? Json.dialect strictValue = some strict := by
  have hrange : strict.InRange := by decide
  have hfirst : Written Json.dialect (ExclusionRule.parts { inNamespace := some "NLog" })
      (.obj [("namespace", .str "NLog")]) :=
    ⟨_, rfl, .of_kept (.leaveOut rfl (.keep rfl (.leaveOut rfl (.leaveOut rfl .nil))))⟩
  have hsecond : Written Json.dialect
      (ExclusionRule.parts { category := .logging, member := some "Write" })
      (.obj [("since", .nat 2), ("name", .str "Write"), ("category", .str "logging")]) :=
    ⟨_, rfl, [("category", .str "logging"), ("name", .str "Write")], [("since", .nat 2)],
      .keep rfl (.leaveOut rfl (.leaveOut rfl (.keep rfl .nil))),
      by simp [ExclusionRule.parts, Part.plain, Json.dialect], List.reverse_perm [_, _, _]⟩
  have hwritten : Written Json.dialect (strict.parts Json.dialect) strictValue := by
    refine ⟨_, rfl, [("rule", _), ("exclusions", _), ("output", _)], [("comment", .void)],
      .keep ?_ (.keep ?_ (.leaveOut rfl (.keep ?_ .nil))), by simp [parts, Json.dialect],
      List.reverse_perm [_, _, _, _]⟩
    · exact ⟨_, rfl, .of_kept (.leaveOut rfl (.keep rfl .nil))⟩
    · exact ⟨_, rfl,
        .of_kept (.leaveOut rfl (.keep ⟨_, rfl, .cons hfirst (.cons hsecond .nil)⟩ .nil))⟩
    · exact ⟨_, rfl, .of_kept (.leaveOut rfl (.keep rfl .nil))⟩
  exact ⟨hrange, hwritten,
    (defaults_can_be_omitted Json.dialect).1 strict hrange strictValue hwritten⟩

end Config

end MethodRoles
