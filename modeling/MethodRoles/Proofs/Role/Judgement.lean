import MethodRoles.Proofs.Role.Evidence

/-!
# What a judgement uses up

Judging a method draws on the budget once for each call in its body. Only whether the budget is
exhausted in the end decides between no outcome and the outcome of an unlimited run.
-/
namespace MethodRoles

namespace Budget

/-- No more has been used than the limit allows. -/
def WithinLimit (b : Budget) : Prop := ∀ k, b.limit = some k → b.used ≤ k

/-- The smaller of a number and the limit. -/
def capped (limit : Option Nat) (n : Nat) : Nat :=
  match limit with
  | none => n
  | some k => min k n

/-- The budget after `n` more calls have been asked for, of which only some may have been
resolved. -/
def draw (b : Budget) (n : Nat) : Budget := { b with used := capped b.limit (b.used + n) }

theorem draw_zero {b : Budget} (h : b.WithinLimit) : b.draw 0 = b := by
  cases b with
  | mk limit used =>
    cases limit with
    | none => rfl
    | some k =>
      have hk : used ≤ k := h k rfl
      simp only [draw, capped, Nat.add_zero, Nat.min_eq_right hk]

theorem draw_withinLimit (b : Budget) (n : Nat) : (b.draw n).WithinLimit := by
  intro k hk
  have hl : b.limit = some k := hk
  simp only [draw, hl, capped]
  omega

theorem draw_draw (b : Budget) (m n : Nat) : (b.draw m).draw n = b.draw (m + n) := by
  cases b with
  | mk limit used =>
    cases limit with
    | none => simp [draw, capped, Nat.add_assoc]
    | some k =>
      simp only [draw, capped, Budget.mk.injEq, true_and]
      omega

theorem isExhausted_draw (b : Budget) (n : Nat) :
    (b.draw n).isExhausted = b.limit.any (· ≤ b.used + n) := by
  cases hl : b.limit with
  | none => simp [isExhausted, draw, hl]
  | some k =>
    simp only [isExhausted, draw, hl, capped, Option.any_some, decide_eq_decide]
    omega

theorem spend_eq_draw {b : Budget} (h : b.isExhausted = false) : b.spend = b.draw 1 := by
  cases b with
  | mk limit used =>
    cases limit with
    | none => rfl
    | some k =>
      have hk : used < k := by simpa [isExhausted] using h
      simp only [spend, draw, capped, Budget.mk.injEq, true_and]
      omega

/-- An exhausted budget has nothing left to draw. -/
theorem draw_of_isExhausted {b : Budget} (hb : b.WithinLimit) (h : b.isExhausted = true) (n : Nat) :
    b.draw n = b := by
  cases b with
  | mk limit used =>
    cases limit with
    | none => cases h
    | some k =>
      have hk : k ≤ used := by simpa [isExhausted] using h
      have hu : used ≤ k := hb k rfl
      simp only [draw, capped, Budget.mk.injEq, true_and]
      omega

/-- The budget is enough for `n` more calls. -/
def covers (b : Budget) (n : Nat) : Bool := b.limit.all (b.used + n ≤ ·)

theorem covers_zero {b : Budget} (h : b.WithinLimit) : b.covers 0 = true := by
  cases hl : b.limit with
  | none => simp [covers, hl]
  | some k => simpa [covers, hl] using h k hl

theorem covers_succ {b : Budget} (h : b.isExhausted = false) (n : Nat) :
    b.covers (n + 1) = (b.draw 1).covers n := by
  cases hl : b.limit with
  | none => simp [covers, draw, hl]
  | some k =>
    have hk : b.used < k := by simpa [isExhausted, hl] using h
    simp only [covers, draw, hl, capped, Option.all_some, decide_eq_decide]
    omega

theorem covers_succ_of_isExhausted {b : Budget} (h : b.isExhausted = true) (n : Nat) :
    b.covers (n + 1) = false := by
  cases hl : b.limit with
  | none => simp [isExhausted, hl] at h
  | some k =>
    have hk : k ≤ b.used := by simpa [isExhausted, hl] using h
    simp only [covers, hl, Option.all_some, decide_eq_false_iff_not]
    omega

/-- What is not covered is exhausted in the end. -/
theorem isExhausted_draw_of_not_covers {b : Budget} {n : Nat} (h : b.covers n = false) :
    (b.draw n).isExhausted = true := by
  rw [isExhausted_draw]
  cases hl : b.limit with
  | none => simp [covers, hl] at h
  | some k =>
    have hk : k < b.used + n := by simpa [covers, hl] using h
    simp only [Option.any_some, decide_eq_true_eq]
    omega

end Budget

namespace SourceFile

theorem ruleOn_eq (f : SourceFile) (table : ExclusionTable) (caller : String) (calls : List Nat)
    (e : Evidence) {b : Budget} (hb : b.WithinLimit) :
    f.ruleOn table caller calls e b =
      (if b.covers calls.length then some ((f.rulings table caller calls).foldl Evidence.record e)
        else none, b.draw calls.length) := by
  induction calls generalizing e b with
  | nil => simp [ruleOn, rulings, Budget.covers_zero hb, Budget.draw_zero hb]
  | cons call calls ih =>
    rw [ruleOn, List.length_cons]
    cases hx : b.isExhausted with
    | true => simp [Budget.covers_succ_of_isExhausted hx, Budget.draw_of_isExhausted hb hx]
    | false =>
      have hd : (b.draw 1).draw calls.length = b.draw (calls.length + 1) := by
        rw [Budget.draw_draw, Nat.add_comm]
      rw [Budget.covers_succ hx, ← hd, Budget.spend_eq_draw hx]
      simp only [Bool.false_eq_true, if_false]
      cases ht : f.targets[call]? with
      | none =>
        dsimp only
        rw [ih e (b.draw_withinLimit 1)]
        simp [rulings, ht]
      | some t =>
        dsimp only
        rw [ih _ (b.draw_withinLimit 1)]
        simp [rulings, ht]

/-- The outcome of a method with all evidence on its body. -/
def outcomeOf (f : SourceFile) (table : ExclusionTable) (m : Method) (body : Nat) : Outcome :=
  if (f.fullEvidence table m.name body).isViolation then
    .violation (.ofEvidence m (f.fullEvidence table m.name body) (f.locationOf m body))
  else .clean

theorem evidence_eq (f : SourceFile) (table : ExclusionTable) (caller : String) (body : Nat)
    {b : Budget} (hb : b.WithinLimit) :
    f.evidence table caller body b =
      (if b.covers (f.calls body).length then some (f.fullEvidence table caller body) else none,
        b.draw (f.calls body).length) := by
  rw [evidence, f.ruleOn_eq table caller _ _ hb]
  cases b.covers (f.calls body).length with
  | true => simp [← foldl_record_rulings]
  | false => rfl

theorem judge_eq (f : SourceFile) (table : ExclusionTable) (m : Method) {b : Budget}
    (hb : b.WithinLimit) :
    f.judge table m b =
      match f.bodyOf m with
      | .error reason => (.skipped reason, b)
      | .ok body =>
        (if (b.draw (f.calls body).length).isExhausted then .skipped .cancelled
          else f.outcomeOf table m body,
          b.draw (f.calls body).length) := by
  rw [judge]
  cases f.bodyOf m with
  | error reason => rfl
  | ok body =>
    simp only [f.evidence_eq table m.name body hb]
    cases hc : b.covers (f.calls body).length with
    | false => simp [Budget.isExhausted_draw_of_not_covers hc]
    | true =>
      simp only [if_true, outcomeOf]
      split
      · rfl
      · split <;> rfl

/-- Without a limit only the structure and the evidence decide. -/
theorem judge_unlimited (f : SourceFile) (table : ExclusionTable) (m : Method) :
    (f.judge table m .unlimited).1 =
      match f.bodyOf m with
      | .error reason => .skipped reason
      | .ok body => f.outcomeOf table m body := by
  have hb : Budget.unlimited.WithinLimit := by
    intro k hk
    cases hk
  rw [f.judge_eq table m hb]
  cases f.bodyOf m with
  | error reason => rfl
  | ok body => rfl

end SourceFile

end MethodRoles
