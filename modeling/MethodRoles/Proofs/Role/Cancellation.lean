import Mathlib.Data.Set.Card
import MethodRoles.Proofs.Model.Loading
import MethodRoles.Proofs.Role.Judgement
import MethodRoles.Proofs.Tree.Search

/-!
# Cancelled runs

Methods of any files are judged one after another until a number of calls has been resolved. The
calls that a run asks for can be counted in the trees. From these numbers alone it follows how many
calls are resolved up to each method, which methods are skipped as cancelled, and that all others
have the outcome of a run that is never cancelled.
-/
namespace MethodRoles

namespace SourceFile

/-- The checks on the structure of a method: it is a method of some sort, and its body is a block
that is not empty. -/
def Admits (f : SourceFile) (m : Method) (body : Nat) : Prop :=
  m.kind ≠ .initializer ∧ m.body = some body ∧ f.tree.hasKind .block body = true ∧
    f.tree.children body ≠ []

/-- The invocations below the body of a method that is admitted. -/
def callSites (f : SourceFile) (m : Method) : Set Nat :=
  { x | ∃ body, f.Admits m body ∧ Relation.TransGen f.tree.Lists body x ∧
    f.tree.hasKind .invocation x = true }

noncomputable def callCount (f : SourceFile) (m : Method) : Nat := (f.callSites m).ncard

theorem bodyOf_eq_ok_iff {f : SourceFile} {m : Method} {body : Nat} :
    f.bodyOf m = .ok body ↔ f.Admits m body := by
  constructor
  · intro h
    unfold bodyOf at h
    split at h
    · cases h
    · next hk =>
      split at h
      · cases h
      · next b hb =>
        split at h
        · cases h
        · next hblock =>
          split at h
          · cases h
          · next hc =>
            cases h
            exact ⟨by simpa [MemberKind.isMethodLike] using hk, hb, by simpa using hblock, hc⟩
  · rintro ⟨hk, hb, hblock, hc⟩
    simp [bodyOf, MemberKind.isMethodLike, hk, hb, hblock, hc]

theorem bodyOf_ne_cancelled {f : SourceFile} {m : Method} {reason : SkipReason}
    (h : f.bodyOf m = .error reason) : reason ≠ .cancelled := by
  unfold bodyOf at h
  split at h
  · cases h; decide
  split at h
  · cases h; decide
  split at h
  · cases h; decide
  split at h
  · cases h; decide
  · cases h

theorem Admits.unique {f : SourceFile} {m : Method} {a b : Nat} (ha : f.Admits m a)
    (hb : f.Admits m b) : a = b :=
  Option.some.inj (ha.2.1.symm.trans hb.2.1)

theorem callCount_of_admits {f : SourceFile} {m : Method} {body : Nat} (hl : f.tree.Linked)
    (h : f.Admits m body) : f.callCount m = (f.calls body).length := by
  have hnodup : (f.calls body).Nodup := hl.nodup_find_everywhere body _
  have hsites : f.callSites m = ((f.calls body).toFinset : Set Nat) := by
    ext x
    simp only [callSites, Set.mem_ofPred_eq, List.coe_toFinset, calls, hl.mem_find_everywhere]
    constructor
    · rintro ⟨b, hb, hx⟩
      exact h.unique hb ▸ hx
    · exact fun hx => ⟨body, h, hx⟩
  rw [callCount, hsites, Set.ncard_coe_finset, List.toFinset_card_of_nodup hnodup]

theorem callCount_of_not_admits {f : SourceFile} {m : Method} (h : ¬ ∃ body, f.Admits m body) :
    f.callCount m = 0 := by
  have hsites : f.callSites m = ∅ := by
    ext x
    simp only [callSites, Set.mem_ofPred_eq, Set.mem_empty_iff_false, iff_false]
    rintro ⟨body, hb, -⟩
    exact h ⟨body, hb⟩
  rw [callCount, hsites, Set.ncard_empty]

/-- A judgement draws on the budget for each call that the method asks for, and is cancelled if that
exhausts it. -/
theorem judge_counted {f : SourceFile} (hl : f.tree.Linked) (table : ExclusionTable) (m : Method)
    {b : Budget} (hb : b.WithinLimit) :
    f.judge table m b =
      (match f.bodyOf m with
        | .error reason => .skipped reason
        | .ok body =>
          if (b.draw (f.callCount m)).isExhausted then .skipped .cancelled
          else f.outcomeOf table m body,
        b.draw (f.callCount m)) := by
  rw [f.judge_eq table m hb]
  cases h : f.bodyOf m with
  | ok body => rw [callCount_of_admits hl (bodyOf_eq_ok_iff.1 h)]
  | error reason =>
    have hn : ¬ ∃ body, f.Admits m body := by
      rintro ⟨body, ha⟩
      rw [bodyOf_eq_ok_iff.2 ha] at h
      cases h
    rw [callCount_of_not_admits hn, Budget.draw_zero hb]

/-- The outcome of a method that is admitted, in a run that is never cancelled. -/
theorem judge_of_admits {f : SourceFile} {m : Method} {body : Nat} (h : f.Admits m body)
    (table : ExclusionTable) : (f.judge table m .unlimited).1 = f.outcomeOf table m body := by
  rw [judge_unlimited, bodyOf_eq_ok_iff.2 h]

theorem outcomeOf_ne_cancelled (f : SourceFile) (table : ExclusionTable) (m : Method) (body : Nat) :
    f.outcomeOf table m body ≠ .skipped .cancelled := by
  unfold outcomeOf
  split <;> simp

/-! ## Whole runs -/

/-- The calls that the methods of a run ask for. -/
noncomputable def callsIn (run : List (SourceFile × Method)) : Nat :=
  (run.map fun fm => fm.1.callCount fm.2).sum

theorem callsIn_take_succ {run : List (SourceFile × Method)} {j : Nat} {f : SourceFile} {m : Method}
    (h : run[j]? = some (f, m)) :
    callsIn (run.take (j + 1)) = callsIn (run.take j) + f.callCount m := by
  simp [callsIn, List.take_add_one, h]

/-- Each method finds the budget that all methods before it have left. -/
theorem getElem?_judgeAll (table : ExclusionTable) {run : List (SourceFile × Method)}
    (hrun : ∀ fm ∈ run, fm.1.tree.Linked) {b : Budget} (hb : b.WithinLimit) (j : Nat) :
    (judgeAll table run b)[j]? =
      run[j]?.map fun fm => fm.1.judge table fm.2 (b.draw (callsIn (run.take j))) := by
  induction run generalizing b j with
  | nil => rfl
  | cons fm run ih =>
    obtain ⟨f, m⟩ := fm
    have hl : f.tree.Linked := hrun (f, m) (by simp)
    rw [judgeAll]
    cases j with
    | zero => simp [callsIn, Budget.draw_zero hb]
    | succ j =>
      have hnext : (f.judge table m b).2 = b.draw (f.callCount m) := by
        rw [judge_counted hl table m hb]
      rw [List.getElem?_cons_succ, List.getElem?_cons_succ, hnext,
        ih (fun fm h => hrun fm (by simp [h])) (b.draw_withinLimit _)]
      simp [callsIn, Budget.draw_draw]

/-- What a run from the start gives for one method. -/
theorem getElem?_judgeAll_start (table : ExclusionTable) {run : List (SourceFile × Method)}
    (hrun : ∀ fm ∈ run, fm.1.tree.Linked) (limit : Option Nat) {j : Nat} {f : SourceFile}
    {m : Method} (hj : run[j]? = some (f, m)) :
    (judgeAll table run { limit })[j]? =
      some (match f.bodyOf m with
        | .error reason => .skipped reason
        | .ok body =>
          if limit.any (· ≤ callsIn (run.take (j + 1))) then .skipped .cancelled
          else f.outcomeOf table m body,
        { limit, used := Budget.capped limit (callsIn (run.take (j + 1))) }) := by
  have hb : ({ limit } : Budget).WithinLimit := fun k _ => Nat.zero_le k
  have hl : f.tree.Linked := hrun (f, m) (List.mem_of_getElem? hj)
  have hd : (({ limit } : Budget).draw (callsIn (run.take j))).draw (f.callCount m) =
      ({ limit } : Budget).draw (callsIn (run.take (j + 1))) := by
    rw [Budget.draw_draw, callsIn_take_succ hj]
  rw [getElem?_judgeAll table hrun hb, hj, Option.map_some,
    judge_counted hl table m (Budget.draw_withinLimit _ _), hd, Budget.isExhausted_draw]
  simp only [Budget.draw, Nat.zero_add]

/-- A run over methods of loaded files is cancelled as soon as `limit` calls have been resolved. Up
to each method as many calls are resolved as the methods so far ask for, but no more than the limit.
A method that is not admitted is skipped for the same reason as without a limit. Any other is
skipped as cancelled if the limit is reached by then, and else has the outcome of the run without a
limit. -/
theorem outcomes_of_cancelled_run (table : ExclusionTable) (limit : Option Nat)
    (run : List (SourceFile × Method))
    (hrun : ∀ fm ∈ run, ∃ model : FileModel, model.load = .ok fm.1)
    (j : Nat) (f : SourceFile) (m : Method) (hj : run[j]? = some (f, m)) :
    ∃ outcome full : Outcome,
      (judgeAll table run { limit })[j]? =
        some (outcome, { limit, used := Budget.capped limit (callsIn (run.take (j + 1))) }) ∧
      (judgeAll table run .unlimited)[j]? = some (full, { used := callsIn (run.take (j + 1)) }) ∧
      ((¬ ∃ body, f.Admits m body) →
        ∃ reason, reason ≠ .cancelled ∧ full = .skipped reason ∧ outcome = .skipped reason) ∧
      ((∃ body, f.Admits m body) →
        full ≠ .skipped .cancelled ∧
        outcome =
          if limit.any (· ≤ callsIn (run.take (j + 1))) then .skipped .cancelled else full) := by
  have hlinked : ∀ fm ∈ run, fm.1.tree.Linked := by
    intro fm h
    obtain ⟨model, hm⟩ := hrun fm h
    exact FileModel.linked_of_load hm
  refine ⟨_, _, getElem?_judgeAll_start table hlinked limit hj,
    getElem?_judgeAll_start table hlinked none hj, ?_, ?_⟩
  · intro hn
    cases h : f.bodyOf m with
    | ok body => exact absurd ⟨body, bodyOf_eq_ok_iff.1 h⟩ hn
    | error reason => exact ⟨reason, bodyOf_ne_cancelled h, rfl, rfl⟩
  · rintro ⟨body, ha⟩
    rw [bodyOf_eq_ok_iff.2 ha]
    exact ⟨f.outcomeOf_ne_cancelled table m body, rfl⟩

/-- Two bodies with two calls and one call. -/
def twoBodies : FileModel where
  path := ⟨"A.cs"⟩
  nodes :=
    [{ kind := .block, children := [1, 2] }, { kind := .invocation }, { kind := .invocation },
      { kind := .block, children := [4] }, { kind := .invocation }]
  calls := [{ node := 1, target := .user "Load" }]

def threeMethods : List (SourceFile × Method) :=
  [(twoBodies.loaded, { name := "First", body := some 0 }),
    (twoBodies.loaded, { name := "Field", kind := .initializer, body := some 0 }),
    (twoBodies.loaded, { name := "Second", body := some 3 })]

/-- A run that is cancelled on the last call of its last method. -/
theorem outcomes_of_cancelled_run_last_call :
    (∀ fm ∈ threeMethods, ∃ model : FileModel, model.load = .ok fm.1) ∧
    (judgeAll .empty threeMethods { limit := some 3 })[2]? =
      some (.skipped .cancelled, { limit := some 3, used := 3 }) := by
  have hload : twoBodies.load = .ok twoBodies.loaded := FileModel.load_eq_ok_iff.2 ⟨by decide, rfl⟩
  have hl := FileModel.linked_of_load hload
  have hrun : ∀ fm ∈ threeMethods, ∃ model : FileModel, model.load = .ok fm.1 := by
    intro fm h
    simp only [threeMethods, List.mem_cons, List.not_mem_nil, or_false] at h
    rcases h with rfl | rfl | rfl <;> exact ⟨twoBodies, hload⟩
  have hfirst : twoBodies.loaded.Admits { name := "First", body := some 0 } 0 :=
    ⟨by decide, rfl, by decide, by decide⟩
  have hfield : ¬ ∃ body, twoBodies.loaded.Admits
      { name := "Field", kind := .initializer, body := some 0 } body := by
    rintro ⟨body, hk, -⟩
    exact hk rfl
  have hsecond : twoBodies.loaded.Admits { name := "Second", body := some 3 } 3 :=
    ⟨by decide, rfl, by decide, by decide⟩
  have hcalls : callsIn (threeMethods.take 3) = 3 := by
    simp only [callsIn, threeMethods, List.take_succ_cons, List.take_zero, List.map_cons,
      List.map_nil, List.sum_cons, List.sum_nil, callCount_of_admits hl hfirst,
      callCount_of_not_admits hfield, callCount_of_admits hl hsecond]
    decide +kernel
  obtain ⟨outcome, full, h, -, -, ho⟩ :=
    outcomes_of_cancelled_run .empty (some 3) threeMethods hrun 2 _ _ rfl
  have he := (ho ⟨3, hsecond⟩).2
  rw [hcalls] at h he
  rw [h, he]
  exact ⟨hrun, rfl⟩

end SourceFile

end MethodRoles
