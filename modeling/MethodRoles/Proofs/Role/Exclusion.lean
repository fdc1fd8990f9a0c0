import MethodRoles.Proofs.Role.Classification

/-!
# More exclusions

Two runs over the same body are compared, of which the second has all rules of the first and maybe
more. Call by call, its ruling is the same or it disregards what the first counts as an operation.
So in the end it has the same integrations and expressions and some of the operations. Tables with
the same rules, in any order and number, are not told apart.
-/
namespace MethodRoles

theorem ExclusionRule.isEmpty_eq_false_of_accepts {r : ExclusionRule} {t : Target}
    (h : r.accepts t = true) : r.isEmpty = false := by
  simp only [accepts, Bool.and_eq_true, Bool.not_eq_true'] at h
  exact h.1.1.1

namespace ExclusionTable

/-- Every rule that sets a criterion is also in the wider table. -/
def Within (table wider : ExclusionTable) : Prop :=
  ∀ r ∈ table.rules, r.isEmpty = false → r ∈ wider.rules

instance (table wider : ExclusionTable) : Decidable (table.Within wider) :=
  inferInstanceAs (Decidable (∀ r ∈ table.rules, r.isEmpty = false → r ∈ wider.rules))

theorem Within.find?_eq_none {table wider : ExclusionTable} (h : table.Within wider) {t : Target}
    (ht : wider.find? t = none) : table.find? t = none := by
  rw [find?, List.find?_eq_none] at ht ⊢
  intro r hr haccepts
  exact ht r (h r hr (ExclusionRule.isEmpty_eq_false_of_accepts haccepts)) haccepts

end ExclusionTable

/-- With more rules a ruling stays as it is, or the call is disregarded and did not integrate
before. -/
theorem Ruling.on_within {table wider : ExclusionTable} (h : table.Within wider) (caller : String)
    (t : Target) :
    on wider caller t = on table caller t ∨
      (∃ reason, on wider caller t = .disregarded reason) ∧
        ((∃ reason, on table caller t = .disregarded reason) ∨
          ∃ name, on table caller t = .operation name) := by
  unfold on
  by_cases huser : t.isUserCode = true
  · exact .inl (by simp only [huser, if_true])
  by_cases hdelegate : (t.isDelegateInvoke && t.isSimpleDelegate) = true
  · exact .inl (by simp only [huser, hdelegate, if_true, if_false, Bool.false_eq_true])
  simp only [huser, hdelegate, if_false, Bool.false_eq_true]
  cases hw : wider.find? t with
  | none => exact .inl (by rw [h.find?_eq_none hw])
  | some rule =>
    refine .inr ⟨⟨_, rfl⟩, ?_⟩
    cases table.find? t with
    | some first => exact .inl ⟨_, rfl⟩
    | none =>
      dsimp only
      split
      · exact .inl ⟨_, rfl⟩
      · exact .inr ⟨_, rfl⟩

theorem Seen.Faithful.mem_insert {s : Seen} (h : s.Faithful) {a b : String} :
    b ∈ (s.insert a).toList ↔ b ∈ s.toList ∨ b = a := by
  have hall : b ∈ (s.insertAll [a]).toList ↔ b ∈ s.toList ∨ b ∈ [a] := h.mem_insertAll
  rwa [List.mem_singleton] at hall

/-- The second evidence lacks some operations and is the same in all else. -/
structure Evidence.Silenced (e e' : Evidence) : Prop where
  integrations : e'.integrations = e.integrations
  expressions : e'.expressions = e.expressions
  operations : e'.operations.toList ⊆ e.operations.toList
  faithful : e.operations.Faithful
  faithful' : e'.operations.Faithful

namespace Evidence.Silenced

variable {e e' : Evidence}

theorem initial : ({} : Evidence).Silenced {} :=
  ⟨rfl, rfl, List.Subset.refl _, Seen.faithful_empty, Seen.faithful_empty⟩

theorem recordOperation (h : e.Silenced e') (name : String) :
    (e.record (.operation name)).Silenced e' where
  integrations := h.integrations
  expressions := h.expressions
  operations := by
    intro a ha
    exact h.faithful.mem_insert.2 (.inl (h.operations ha))
  faithful := h.faithful.insert name
  faithful' := h.faithful'

theorem record (h : e.Silenced e') (r : Ruling) : (e.record r).Silenced (e'.record r) := by
  cases r with
  | integration name =>
    exact ⟨by simp only [Evidence.record, h.integrations], h.expressions, h.operations,
      h.faithful, h.faithful'⟩
  | operation name =>
    refine ⟨h.integrations, h.expressions, ?_, h.faithful.insert name, h.faithful'.insert name⟩
    intro a ha
    refine h.faithful.mem_insert.2 ?_
    rcases h.faithful'.mem_insert.1 ha with ha | ha
    · exact .inl (h.operations ha)
    · exact .inr ha
  | disregarded reason => exact h

/-- One call under two tables. -/
theorem record_on {table wider : ExclusionTable} (hs : e.Silenced e') (h : table.Within wider)
    (caller : String) (t : Target) :
    (e.record (.on table caller t)).Silenced (e'.record (.on wider caller t)) := by
  rcases Ruling.on_within h caller t with hsame | ⟨⟨reason, hr⟩, hdisregarded | ⟨name, hoperation⟩⟩
  · rw [hsame]
    exact hs.record _
  · obtain ⟨other, hd⟩ := hdisregarded
    rw [hr, hd]
    exact hs
  · rw [hr, hoperation]
    exact hs.recordOperation name

theorem recordExpressions (h : e.Silenced e') (texts : List String) :
    (texts.foldl recordExpression e).Silenced (texts.foldl recordExpression e') := by
  rw [foldl_recordExpression, foldl_recordExpression]
  exact ⟨h.integrations, by rw [h.expressions], h.operations, h.faithful, h.faithful'⟩

/-- What mixes the roles without some operations also does so with them. -/
theorem isViolation (h : e.Silenced e') (hv : e'.isViolation = true) : e.isViolation = true := by
  rw [Evidence.isViolation_eq_true_iff] at hv ⊢
  rw [h.integrations, h.expressions] at hv
  refine ⟨hv.1, hv.2.imp_left fun ho hnil => ho ?_⟩
  have hsubset := h.operations
  rw [hnil] at hsubset
  exact List.subset_nil.1 hsubset

end Evidence.Silenced

namespace SourceFile

variable {table wider : ExclusionTable}

/-- All calls of a body under two tables: the runs are cancelled at the same call or not at all. -/
theorem ruleOn_within (h : table.Within wider) (f : SourceFile) (caller : String) (calls : List Nat)
    {e e' : Evidence} (hs : e.Silenced e') (b : Budget) :
    Option.Rel Evidence.Silenced (f.ruleOn table caller calls e b).1
      (f.ruleOn wider caller calls e' b).1 ∧
      (f.ruleOn wider caller calls e' b).2 = (f.ruleOn table caller calls e b).2 := by
  induction calls generalizing e e' b with
  | nil => exact ⟨.some hs, rfl⟩
  | cons call calls ih =>
    rw [ruleOn, ruleOn]
    split
    · exact ⟨.none, rfl⟩
    · cases f.targets[call]? with
      | none => exact ih hs b.spend
      | some t => exact ih (hs.record_on h caller t) b.spend

theorem evidence_within (h : table.Within wider) (f : SourceFile) (caller : String) (body : Nat)
    (b : Budget) :
    Option.Rel Evidence.Silenced (f.evidence table caller body b).1
      (f.evidence wider caller body b).1 ∧
      (f.evidence wider caller body b).2 = (f.evidence table caller body b).2 := by
  obtain ⟨hrel, hbudget⟩ := ruleOn_within h f caller (f.calls body) .initial b
  unfold evidence
  rcases hr : f.ruleOn table caller (f.calls body) {} b with ⟨r, c⟩
  rcases hr' : f.ruleOn wider caller (f.calls body) {} b with ⟨r', c'⟩
  rw [hr, hr'] at hrel hbudget
  cases hrel with
  | none => exact ⟨.none, hbudget⟩
  | some hs => exact ⟨.some (hs.recordExpressions _), hbudget⟩

/-- More rules never make a method mix the roles. -/
theorem violation_of_within (h : table.Within wider) (f : SourceFile) (m : Method) (b : Budget)
    {d : Diagnostic} (hd : (f.judge wider m b).1 = .violation d) :
    ∃ d, (f.judge table m b).1 = .violation d := by
  unfold judge at hd ⊢
  cases hb : f.bodyOf m with
  | error reason => rw [hb] at hd; cases hd
  | ok body =>
    simp only [hb] at hd ⊢
    obtain ⟨hrel, hbudget⟩ := evidence_within h f m.name body b
    rcases he : f.evidence table m.name body b with ⟨r, c⟩
    rcases he' : f.evidence wider m.name body b with ⟨r', c'⟩
    rw [he, he'] at hrel hbudget
    rw [he'] at hd
    obtain rfl : c' = c := hbudget
    cases hrel with
    | none => cases hd
    | some hs =>
      dsimp only at hd ⊢
      split at hd
      · cases hd
      · split at hd
        · next hx hv => exact ⟨_, by rw [if_neg hx, if_pos (hs.isViolation hv)]⟩
        · cases hd

/-! ## Tables with the same rules -/

theorem record_on_eq (h : table.Within wider) (h' : wider.Within table) (e : Evidence)
    (caller : String)
    (t : Target) : e.record (.on wider caller t) = e.record (.on table caller t) := by
  rcases Ruling.on_within h caller t with hsame | ⟨⟨reason, hr⟩, ⟨other, hd⟩ | ⟨name, hoperation⟩⟩
  · rw [hsame]
  · rw [hr, hd]
    rfl
  · -- the first table would have to disregard the call as well
    rcases Ruling.on_within h' caller t with hsame | ⟨⟨other, hd⟩, -⟩
    · rw [hsame]
    · rw [hoperation] at hd
      cases hd

theorem ruleOn_congr (h : table.Within wider) (h' : wider.Within table) (f : SourceFile)
    (caller : String) (calls : List Nat) (e : Evidence) (b : Budget) :
    f.ruleOn wider caller calls e b = f.ruleOn table caller calls e b := by
  induction calls generalizing e b with
  | nil => rfl
  | cons call calls ih =>
    rw [ruleOn, ruleOn]
    cases f.targets[call]? with
    | none => simp only [ih]
    | some t => simp only [ih, record_on_eq h h']

theorem evidence_congr (h : table.Within wider) (h' : wider.Within table) (f : SourceFile)
    (caller : String) (body : Nat) (b : Budget) :
    f.evidence wider caller body b = f.evidence table caller body b := by
  rw [evidence, evidence, ruleOn_congr h h']

theorem judge_congr (h : table.Within wider) (h' : wider.Within table) (f : SourceFile) (m : Method)
    (b : Budget) : f.judge wider m b = f.judge table m b := by
  rw [judge, judge]
  simp only [evidence_congr h h']

/-- A table with more rules leaves the integrations and the expressions as they are and takes away
some of the operations, so that it reports no method that would not be reported without it. With the
same rules all is the same, whatever their order and number. -/
theorem exclusions_only_silence {table wider : ExclusionTable} (h : table.Within wider)
    (f : SourceFile) :
    (∀ caller body, ∃ e e', (f.evidence table caller body .unlimited).1 = some e ∧
      (f.evidence wider caller body .unlimited).1 = some e' ∧
      e'.integrations.toList = e.integrations.toList ∧
      e'.expressions.toList = e.expressions.toList ∧
      e'.operations.toList ⊆ e.operations.toList) ∧
    (∀ m b d', (f.judge wider m b).1 = .violation d' → ∃ d, (f.judge table m b).1 = .violation d) ∧
    (wider.Within table →
      (∀ caller body b, f.evidence wider caller body b = f.evidence table caller body b) ∧
      ∀ m b, f.judge wider m b = f.judge table m b) := by
  refine ⟨?_, fun m b d' => violation_of_within h f m b,
    fun h' => ⟨evidence_congr h h' f, judge_congr h h' f⟩⟩
  intro caller body
  obtain ⟨hrel, -⟩ := evidence_within h f caller body .unlimited
  rw [evidence_unlimited, evidence_unlimited] at hrel ⊢
  cases hrel with
  | some hs =>
    exact ⟨_, _, rfl, rfl, by rw [hs.integrations], by rw [hs.expressions], hs.operations⟩

/-- Two calls of different members that are called `Write`, with a call of `Read` between them. -/
def twoWrites : FileModel where
  path := ⟨"A.cs"⟩
  nodes :=
    [{ kind := .block, children := [1, 2, 3] }, { kind := .invocation }, { kind := .invocation },
      { kind := .invocation }]
  calls :=
    [{ node := 1, target := .external "Serilog" "Log" "Write" },
      { node := 2, target := .external "System.IO" "File" "Read" },
      { node := 3, target := .external "System" "Console" "Write" }]

theorem operations_twoWrites (table : ExclusionTable) :
    (twoWrites.loaded.fullEvidence table "Run" 0).operations.toList =
      ([.external "Serilog" "Log" "Write", .external "System.IO" "File" "Read",
        .external "System" "Console" "Write"].filterMap fun t =>
          (Ruling.on table "Run" t).operated?).eraseDups := by
  have hload : twoWrites.load = .ok twoWrites.loaded := FileModel.load_eq_ok_iff.2 ⟨by decide, rfl⟩
  have hcalls : (twoWrites.loaded.tree.descendants 0).filter
      (twoWrites.loaded.tree.hasKind .invocation) =
      [1, 2, 3] := by decide +kernel
  rw [fullEvidence, Seen.toList_ofList, filterMap_rulings, namesIn, hcalls]
  simp only [(FileModel.represents_of_load hload).target]
  rfl

/-- With one of the two calls excluded, the name they share is first seen later. -/
theorem exclusions_only_silence_reordered :
    ExclusionTable.empty.Within { rules := [{ inNamespace := some "Serilog" }] } ∧
    ∃ e e', (twoWrites.loaded.evidence .empty "Run" 0 .unlimited).1 = some e ∧
      (twoWrites.loaded.evidence { rules := [{ inNamespace := some "Serilog" }] } "Run" 0
        .unlimited).1 =
        some e' ∧
      e'.operations.toList ⊆ e.operations.toList ∧
      e.operations.toList = ["Write", "Read"] ∧ e'.operations.toList = ["Read", "Write"] := by
  have hwithin : ExclusionTable.empty.Within { rules := [{ inNamespace := some "Serilog" }] } := by
    decide
  obtain ⟨hlists, -, -⟩ := exclusions_only_silence hwithin twoWrites.loaded
  obtain ⟨e, e', he, he', -, -, hsubset⟩ := hlists "Run" 0
  refine ⟨hwithin, e, e', he, he', hsubset, ?_, ?_⟩
  · rw [evidence_unlimited] at he
    cases he
    rw [operations_twoWrites]
    decide
  · rw [evidence_unlimited] at he'
    cases he'
    rw [operations_twoWrites]
    decide

end SourceFile

end MethodRoles
