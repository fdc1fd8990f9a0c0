import MethodRoles.Call.Target

/-!
# Exclusions and rulings

Calls of some external members say nothing about the role of a method: scheduling, awaiting,
assertions, logging. A rule names them by namespace, type and member; a table is a list of rules, of
which the first that matches decides.
-/
namespace MethodRoles

inductive ExclusionCategory where
  | taskScheduling
  | awaiterConfiguration
  | testAssertion
  | snapshotVerification
  | logging
  | custom
  deriving DecidableEq, Repr, Inhabited

namespace ExclusionCategory

/-- The name of a category in configurations. -/
def name : ExclusionCategory → String
  | taskScheduling => "task_scheduling"
  | awaiterConfiguration => "awaiter_configuration"
  | testAssertion => "test_assertion"
  | snapshotVerification => "snapshot_verification"
  | logging => "logging"
  | custom => "custom"

/-- The name of a category in explanations. -/
def label : ExclusionCategory → String
  | taskScheduling => "task scheduling"
  | awaiterConfiguration => "awaiter configuration"
  | testAssertion => "test assertion"
  | snapshotVerification => "snapshot verification"
  | logging => "logging"
  | custom => "custom"

def all : List ExclusionCategory :=
  [taskScheduling, awaiterConfiguration, testAssertion, snapshotVerification, logging, custom]

def ofName? (s : String) : Option ExclusionCategory := all.find? (·.name == s)

theorem ofName?_name (c : ExclusionCategory) : ofName? c.name = some c := by cases c <;> rfl

end ExclusionCategory

/-- A rule sets some of three criteria and excludes the targets that meet all of them. -/
structure ExclusionRule where
  category : ExclusionCategory := .custom
  inNamespace : Option String := none
  ofType : Option String := none
  member : Option String := none
  deriving DecidableEq, Repr, Inhabited

namespace ExclusionRule

/-- A rule that sets no criterion; it matches nothing. -/
def isEmpty (r : ExclusionRule) : Bool :=
  r.inNamespace.isNone && r.ofType.isNone && r.member.isNone

/-- Whether a namespace is `outer` or lies in it. -/
def liesIn (inner outer : String) : Bool :=
  match outer.toList.isPrefixOf? inner.toList with
  | some [] => true
  | some (c :: _) => c == '.'
  | none => false

def accepts (r : ExclusionRule) (t : Target) : Bool :=
  !r.isEmpty &&
    r.inNamespace.all (liesIn t.containingNamespace) &&
    r.ofType.all (fun type => TypeText.baseName t.containingType.toList == type.toList) &&
    r.member.all (t.name == ·)

end ExclusionRule

structure ExclusionTable where
  rules : List ExclusionRule := []
  deriving DecidableEq, Repr, Inhabited

namespace ExclusionTable

def empty : ExclusionTable := {}

/-- Adds a rule at the end, unless it sets no criterion. -/
def push (table : ExclusionTable) (rule : ExclusionRule) : ExclusionTable :=
  if rule.isEmpty then table else { rules := table.rules ++ [rule] }

def append (table : ExclusionTable) (rules : List ExclusionRule) : ExclusionTable :=
  rules.foldl push table

def find? (table : ExclusionTable) (t : Target) : Option ExclusionRule :=
  table.rules.find? (·.accepts t)

def findIndex? (table : ExclusionTable) (t : Target) : Option Nat :=
  table.rules.findIdx? (·.accepts t)

/-- The rules that are in force unless a configuration says otherwise. -/
def defaults : ExclusionTable where
  rules :=
    [{ category := .taskScheduling, inNamespace := some "System.Threading.Tasks",
       ofType := some "Task", member := some "Run" },
     { category := .awaiterConfiguration, inNamespace := some "System",
       member := some "ConfigureAwait" }] ++
    ["NUnit.Framework", "Xunit", "Microsoft.VisualStudio.TestTools.UnitTesting",
      "FluentAssertions", "Shouldly"].map (rule .testAssertion) ++
    ["VerifyTests", "VerifyNUnit", "VerifyXunit", "VerifyMSTest"].map
    (rule .snapshotVerification) ++
    ["Microsoft.Extensions.Logging", "Serilog"].map (rule .logging)
where
  rule (category : ExclusionCategory) (space : String) : ExclusionRule :=
    { category, inNamespace := some space }

end ExclusionTable

/-!
## Rulings on calls

A call of the analyzed code integrates, a call of anything else operates. A call that seems to go to
the overridden version of the calling method itself counts as neither, and so does an excluded one.
-/

inductive Disregard where
  | baseImplementation
  | excluded (category : ExclusionCategory)
  deriving DecidableEq, Repr

inductive Ruling where
  | integration (name : String)
  | operation (name : String)
  | disregarded (reason : Disregard)
  deriving DecidableEq, Repr

/-- The ruling on a call of `t` in a method called `caller`. -/
def Ruling.on (table : ExclusionTable) (caller : String) (t : Target) : Ruling :=
  let callsBase := t.isVirtual && t.name == caller
  if t.isUserCode then
    if callsBase then .disregarded .baseImplementation else .integration t.name
  else if t.isDelegateInvoke && t.isSimpleDelegate then .integration t.name
  else match table.find? t with
    | some rule => .disregarded (.excluded rule.category)
    | none => if callsBase then .disregarded .baseImplementation else .operation t.name

end MethodRoles
