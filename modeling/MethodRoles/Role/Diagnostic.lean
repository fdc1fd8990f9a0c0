import MethodRoles.Model.Codec
import MethodRoles.Role.Evidence

/-!
# Diagnostics
-/
namespace MethodRoles

inductive Severity where
  | warning
  deriving DecidableEq, Repr, Inhabited

def Severity.name : Severity → String
  | .warning => "warning"

structure Rule where
  id : String
  title : String
  category : String
  description : String
  severity : Severity
  enabledByDefault : Bool
  deriving Repr

/-- The one rule: a method either integrates or operates. -/
def Rule.segregation : Rule where
  id := "CCD0001"
  title := "IOSP violation"
  category := "Clean Code Developer Principles"
  description := "Integration Operation Segregation Principle (IOSP) is violated."
  severity := .warning
  enabledByDefault := true

/-- A method that mixes the roles, with the evidence for it. -/
structure Diagnostic where
  methodName : String
  owningType : String := ""
  metric : Nat
  integrations : List String := []
  operations : List String := []
  expressions : List String := []
  integrationText : String
  operationText : String
  location : Location
  deriving DecidableEq, Repr, Inhabited

namespace Diagnostic

def ofEvidence (m : Method) (e : Evidence) (location : Location) : Diagnostic where
  methodName := m.name
  owningType := m.owningType
  metric := e.metric
  integrations := e.integrations.toList
  operations := e.operations.toList
  expressions := e.expressions.toList
  integrationText := e.integrationText
  operationText := e.operationText
  location

def summary (d : Diagnostic) : String :=
  "Method '" ++ d.methodName ++ "' mixes integration with operation (metric " ++
    toString d.metric ++ ")."

def message (d : Diagnostic) : String :=
  d.summary ++ "\n" ++ d.integrationText ++ d.operationText

/-- Severity and rule of a diagnostic, as reports show them. -/
def tag : String := Rule.segregation.severity.name ++ "[" ++ Rule.segregation.id ++ "]"

def display (d : Diagnostic) : String := d.location.display ++ ": " ++ tag ++ ": " ++ d.message

def toValue (d : Diagnostic) : Data.Value :=
  .obj [("rule_id", .str Rule.segregation.id), ("severity", .str Rule.segregation.severity.name),
    ("method_name", .str d.methodName), ("owning_type", .str d.owningType),
    ("metric", .nat d.metric), ("integrations", .strs d.integrations),
    ("operations", .strs d.operations), ("expressions", .strs d.expressions),
    ("integration_text", .str d.integrationText), ("operation_text", .str d.operationText),
    ("location", d.location.toValue)]

end Diagnostic

end MethodRoles
