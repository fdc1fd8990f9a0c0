import MethodRoles.Config.Basic
import MethodRoles.Role.Outcome

/-!
# Analyzing files

An analyzer reports the methods of a file that mix roles, in the order of their declaration. Files,
and the methods of a file, may be judged side by side.
-/
namespace MethodRoles

/-!
## Workers

The same work is done on all items of a list. Workers that run side by side take a share of the
items each. What they bring back is put together in the order of the items, whichever of them ends
first.
-/

structure Workers where
  parallel : Bool := true
  /-- How many workers there are; 0 stands for one worker for each item. -/
  jobs : Nat := 0
  deriving DecidableEq, Repr, Inhabited

namespace Workers

variable {α β : Type}

/-- Cuts a list into shares of `size` items; the last share may be smaller. -/
def shares (size : Nat) : List α → List (List α)
  | [] => []
  | x :: xs => (x :: xs.take (size - 1)) :: shares size (xs.drop (size - 1))
termination_by items => items.length
decreasing_by simp only [List.length_drop, List.length_cons]; omega

/-- The size of the shares when there is at most one of them for each worker. -/
def shareSize (w : Workers) (items : Nat) : Nat :=
  if w.jobs = 0 then 1 else (items + w.jobs - 1) / w.jobs

/-- What the work on some items gives. -/
def gather (w : Workers) (work : List α → List β) (items : List α) : List β :=
  if w.parallel then
    let running := (shares (w.shareSize items.length) items).map fun share =>
      Task.spawn fun _ => work share
    running.flatMap Task.get
  else work items

end Workers

/-! ## Analyzers -/

structure Analyzer where
  enabled : Bool := true
  exclusions : ExclusionTable := .defaults
  minMetric : Nat := 0
  includeGenerated : Bool := false
  workers : Workers := {}
  deriving Repr

namespace Analyzer

def ofConfig (c : Config) : Analyzer where
  enabled := c.rule.enabled
  exclusions := c.exclusions.table
  minMetric := c.rule.minMetric
  includeGenerated := c.analysis.includeGenerated
  workers := { parallel := c.analysis.parallel, jobs := c.analysis.jobs }

/-- The diagnostic for a method, if there is one to report. -/
def report? (a : Analyzer) (b : Budget) (f : SourceFile) (m : Method) : Option Diagnostic :=
  ((f.judge a.exclusions m b).1.diagnostic?).filter (a.minMetric ≤ ·.metric)

/-- The diagnostics for a file; each method may use up the given budget. -/
def diagnostics (a : Analyzer) (b : Budget) (f : SourceFile) : List Diagnostic :=
  if !a.enabled then []
  else if f.generated && !a.includeGenerated then []
  else a.workers.gather (·.filterMap (a.report? b f)) f.methods

/-- The diagnostics for some files, file after file. -/
def diagnosticsOfAll (a : Analyzer) (b : Budget) (files : List SourceFile) : List Diagnostic :=
  a.workers.gather (·.flatMap (a.diagnostics b)) files

end Analyzer

end MethodRoles
