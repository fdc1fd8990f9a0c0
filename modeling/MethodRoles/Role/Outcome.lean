import MethodRoles.Model.Load
import MethodRoles.Role.Diagnostic
import MethodRoles.Syntax.Search

/-!
# Judging methods

Each method is judged on its own. The calls in its body are resolved one after another and ruled on;
then the expressions are collected that compute. A run may be cancelled after a number of calls have
been resolved, which is a budget that is handed from method to method.
-/
namespace MethodRoles

/-- How many calls have been resolved in a run, and after how many it is cancelled. -/
structure Budget where
  limit : Option Nat := none
  used : Nat := 0
  deriving DecidableEq, Repr, Inhabited

namespace Budget

def unlimited : Budget := {}

def isExhausted (b : Budget) : Bool := b.limit.any (· ≤ b.used)

def spend (b : Budget) : Budget := { b with used := b.used + 1 }

end Budget

inductive SkipReason where
  | notAMethod
  | noBody
  | emptyBody
  | cancelled
  deriving DecidableEq, Repr

inductive Outcome where
  | skipped (reason : SkipReason)
  | clean
  | violation (d : Diagnostic)
  deriving DecidableEq, Repr

def Outcome.diagnostic? : Outcome → Option Diagnostic
  | .violation d => some d
  | _ => none

namespace SourceFile

/-- Resolves calls one after another and records the rulings on them; `none` if the run is
cancelled. -/
def ruleOn (f : SourceFile) (table : ExclusionTable) (caller : String) :
    List Nat → Evidence → Budget → Option Evidence × Budget
  | [], e, b => (some e, b)
  | call :: calls, e, b =>
    if b.isExhausted then (none, b)
    else match f.targets[call]? with
      | none => f.ruleOn table caller calls e b.spend
      | some t => f.ruleOn table caller calls (e.record (.on table caller t)) b.spend

/-- The invocations below a node. -/
def calls (f : SourceFile) (body : Nat) : List Nat :=
  f.tree.find body .everywhere (f.tree.hasKind .invocation)

/-- The texts of the outermost computing expressions below a node. -/
def expressions (f : SourceFile) (body : Nat) : List String :=
  (f.tree.find body .shallowest f.tree.isComputed).map f.tree.text

/-- The evidence on a body; `none` if the run is cancelled. -/
def evidence (f : SourceFile) (table : ExclusionTable) (caller : String) (body : Nat) (b : Budget) :
    Option Evidence × Budget :=
  match f.ruleOn table caller (f.calls body) {} b with
  | (none, b) => (none, b)
  | (some e, b) => (some ((f.expressions body).foldl Evidence.recordExpression e), b)

/-- The block that makes up the body of a method, or why the method is not judged. -/
def bodyOf (f : SourceFile) (m : Method) : Except SkipReason Nat :=
  if !m.kind.isMethodLike then .error .notAMethod
  else match m.body with
    | none => .error .noBody
    | some body =>
      if !f.tree.hasKind .block body then .error .noBody
      else if f.tree.children body = [] then .error .emptyBody
      else .ok body

/-- A diagnostic points to the declaration of the method in its file, or else to its body. -/
def locationOf (f : SourceFile) (m : Method) (body : Nat) : Location :=
  match m.locationIn? f.tree.path with
  | some l => l
  | none => { file := f.tree.path, span := match f.tree.node? body with
      | some n => n.span
      | none => {} }

def judge (f : SourceFile) (table : ExclusionTable) (m : Method) (b : Budget) : Outcome × Budget :=
  match f.bodyOf m with
  | .error reason => (.skipped reason, b)
  | .ok body =>
    match f.evidence table m.name body b with
    | (none, b) => (.skipped .cancelled, b)
    | (some e, b) =>
      if b.isExhausted then (.skipped .cancelled, b)
      else if e.isViolation then (.violation (.ofEvidence m e (f.locationOf m body)), b)
      else (.clean, b)

/-- Judges methods one after another, each with the budget that the one before has left. -/
def judgeAll (table : ExclusionTable) :
    List (SourceFile × Method) → Budget → List (Outcome × Budget)
  | [], _ => []
  | (f, m) :: rest, b =>
    let judged := f.judge table m b
    judged :: judgeAll table rest judged.2

end SourceFile

end MethodRoles
