import MethodRoles.Call.Exclusion
import Std.Data.HashSet

/-!
# Evidence and verdict

The evidence on a method is the set of the calls that integrate, of the calls that operate, and of
the expressions that compute. A method that integrates and also operates or computes mixes the two
roles; the metric tells how much there is to move elsewhere.
-/
namespace MethodRoles

/-! ## Texts in the order of their first appearance -/

/-- A set of texts that remembers the order in which they came. -/
structure Seen where
  items : Array String := #[]
  index : Std.HashSet String := {}

namespace Seen

def empty : Seen := {}

instance : Inhabited Seen := ⟨empty⟩

def contains (s : Seen) (a : String) : Bool := s.index.contains a

/-- Adds a text at the end, unless it is there already. -/
def insert (s : Seen) (a : String) : Seen :=
  if s.contains a then s else { items := s.items.push a, index := s.index.insert a }

/-- Adds a text and tells whether it is new. -/
def insertNew (s : Seen) (a : String) : Bool × Seen := (!s.contains a, s.insert a)

def insertAll (s : Seen) (texts : List String) : Seen := texts.foldl insert s

def ofList (texts : List String) : Seen := empty.insertAll texts

def toList (s : Seen) : List String := s.items.toList

def size (s : Seen) : Nat := s.items.size

def isEmpty (s : Seen) : Bool := s.items.isEmpty

/-- Sets are equal when they hold the same texts in the same order. -/
instance : BEq Seen := ⟨fun s t => s.items == t.items⟩

end Seen

/-! ## Evidence -/

structure Evidence where
  integrations : Seen := {}
  operations : Seen := {}
  expressions : Seen := {}
  deriving Inhabited

/-- How much of a method is of the smaller role. -/
def severity (integrations operations expressions : Nat) : Nat :=
  if integrations = 0 then 0
  else if operations = 0 ∧ expressions = 0 then 0
  else if integrations > operations then operations + 2 * expressions
  else integrations

namespace Evidence

def record (e : Evidence) : Ruling → Evidence
  | .integration name => { e with integrations := e.integrations.insert name }
  | .operation name => { e with operations := e.operations.insert name }
  | .disregarded _ => e

def recordExpression (e : Evidence) (text : String) : Evidence :=
  { e with expressions := e.expressions.insert text }

def isViolation (e : Evidence) : Bool :=
  !e.integrations.isEmpty && (!e.operations.isEmpty || !e.expressions.isEmpty)

def metric (e : Evidence) : Nat :=
  severity e.integrations.size e.operations.size e.expressions.size

def integrationLine (name : String) : String := "- Integration: call to '" ++ name ++ "'\n"

def operationLine (name : String) : String := "- Operation: calling API '" ++ name ++ "'\n"

def expressionLine (text : String) : String := "- Operation: expression '" ++ text ++ "'\n"

/-- A line for each call that integrates. -/
def integrationText (e : Evidence) : String :=
  String.join (e.integrations.toList.map integrationLine)

/-- A line for each call that operates, then a line for each expression. -/
def operationText (e : Evidence) : String :=
  String.join (e.operations.toList.map operationLine ++ e.expressions.toList.map expressionLine)

end Evidence

end MethodRoles
