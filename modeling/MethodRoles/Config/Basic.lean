import MethodRoles.Call.Exclusion
import MethodRoles.Data
import MethodRoles.Json.Printer

/-!
# Configurations

Every section of a configuration and every field of a section may be left out.
-/
namespace MethodRoles

/-! ## Formats of reports -/

inductive ReportFormat where
  | json
  | markdown
  | terminal
  deriving DecidableEq, Repr, Inhabited

namespace ReportFormat

def name : ReportFormat → String
  | json => "json"
  | markdown => "markdown"
  | terminal => "terminal"

def all : List ReportFormat := [json, markdown, terminal]

def ofName? (s : String) : Option ReportFormat := all.find? (·.name == s)

theorem ofName?_name (f : ReportFormat) : ofName? f.name = some f := by cases f <;> rfl

end ReportFormat

/-! ## Settings -/

structure RuleSettings where
  enabled : Bool := true
  /-- Methods with a lower metric are not reported. -/
  minMetric : Nat := 0
  deriving DecidableEq, Repr, Inhabited

structure ExclusionSettings where
  useDefaults : Bool := true
  rules : List ExclusionRule := []
  deriving DecidableEq, Repr, Inhabited

/-- The table that the settings ask for: the default rules unless they are switched off, then the
rules of the settings. -/
def ExclusionSettings.table (s : ExclusionSettings) : ExclusionTable :=
  (if s.useDefaults then ExclusionTable.defaults else .empty).append s.rules

structure AnalysisSettings where
  parallel : Bool := true
  jobs : Nat := 0
  includeGenerated : Bool := false
  deriving DecidableEq, Repr, Inhabited

structure OutputSettings where
  defaultFormat : Option ReportFormat := none
  useColor : Option Bool := none
  deriving DecidableEq, Repr, Inhabited

structure Config where
  rule : RuleSettings := {}
  exclusions : ExclusionSettings := {}
  analysis : AnalysisSettings := {}
  output : OutputSettings := {}
  deriving DecidableEq, Repr, Inhabited

/-! ## Settings as data -/

open Data FieldReader

namespace ExclusionRule

def ofValue? (d : Dialect) : Decoder ExclusionRule := Decode.record d do
  let category ←
    withDefault "category" (Decode.variant d ExclusionCategory.ofName?) .custom
  let inNamespace ← withDefault "namespace" (Decode.nullable Decode.text) none
  let ofType ← withDefault "type" (Decode.nullable Decode.text) none
  let member ← withDefault "name" (Decode.nullable Decode.text) none
  return { category, inNamespace, ofType, member }

def toValue (r : ExclusionRule) : Value :=
  .obj [("category", .str r.category.name), ("namespace", .ofOption .str r.inNamespace),
    ("type", .ofOption .str r.ofType), ("name", .ofOption .str r.member)]

end ExclusionRule

namespace RuleSettings

def ofValue? (d : Dialect) : Decoder RuleSettings := Decode.record d do
  let enabled ← withDefault "enabled" Decode.bool true
  let minMetric ← withDefault "min_metric" Decode.word 0
  return { enabled, minMetric }

def toValue (s : RuleSettings) : Value :=
  .obj [("enabled", .bool s.enabled), ("min_metric", .nat s.minMetric)]

end RuleSettings

namespace ExclusionSettings

def ofValue? (d : Dialect) : Decoder ExclusionSettings := Decode.record d do
  let useDefaults ← withDefault "use_defaults" Decode.bool true
  let rules ← withDefault "rules" (Decode.list (ExclusionRule.ofValue? d)) []
  return { useDefaults, rules }

def toValue (s : ExclusionSettings) : Value :=
  .obj [("use_defaults", .bool s.useDefaults),
    ("rules", .arr (s.rules.map ExclusionRule.toValue))]

end ExclusionSettings

namespace AnalysisSettings

def ofValue? (d : Dialect) : Decoder AnalysisSettings := Decode.record d do
  let parallel ← withDefault "parallel" Decode.bool true
  let jobs ← withDefault "jobs" Decode.word 0
  let includeGenerated ← withDefault "include_generated" Decode.bool false
  return { parallel, jobs, includeGenerated }

def toValue (s : AnalysisSettings) : Value :=
  .obj [("parallel", .bool s.parallel), ("jobs", .nat s.jobs),
    ("include_generated", .bool s.includeGenerated)]

end AnalysisSettings

namespace OutputSettings

/-- The format may be missing from an object, but not from a list. -/
def ofValue? (d : Dialect) : Decoder OutputSettings := Decode.record d do
  let defaultFormat ← field "default_format"
    (Decode.nullable (Decode.variant d ReportFormat.ofName?)) (some none) none
  let useColor ← withDefault "use_color" (Decode.nullable Decode.bool) none
  return { defaultFormat, useColor }

def toValue (s : OutputSettings) : Value :=
  .obj [("default_format", .ofOption (fun f => .str f.name) s.defaultFormat),
    ("use_color", .ofOption .bool s.useColor)]

end OutputSettings

namespace Config

def ofValue? (d : Dialect) : Decoder Config := Decode.record d do
  let rule ← withDefault "rule" (RuleSettings.ofValue? d) {}
  let exclusions ← withDefault "exclusions" (ExclusionSettings.ofValue? d) {}
  let analysis ← withDefault "analysis" (AnalysisSettings.ofValue? d) {}
  let output ← withDefault "output" (OutputSettings.ofValue? d) {}
  return { rule, exclusions, analysis, output }

def toValue (c : Config) : Value :=
  .obj [("rule", c.rule.toValue), ("exclusions", c.exclusions.toValue),
    ("analysis", c.analysis.toValue), ("output", c.output.toValue)]

end Config

end MethodRoles
