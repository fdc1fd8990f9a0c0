import MethodRoles.Proofs.Role.Cancellation

/-!
# What the evidence consists of

The evidence on a body is collected with stacks and sets. Here it is said by recursion on the tree:
the calls come in the listing of all nodes below the body, the expressions are the outermost ones,
and of each name and text only the first appearance counts. A diagnostic holds just that evidence.
-/
namespace MethodRoles

namespace Tree.Linked

variable {t : Tree}

theorem descendants_eq (h : t.Linked) (id : Nat) :
    t.descendants id = (t.children id).flatMap fun c => c :: t.descendants c := by
  rw [Tree.descendants_eq, h.below_eq]

theorem outermost_eq (h : t.Linked) (p : Nat → Bool) (id : Nat) :
    t.outermost p id =
      if (t.children id).any p then (t.children id).filter p
      else (t.children id).flatMap (t.outermost p) := by
  rw [Tree.outermost_eq, h.below_eq]
  cases hf : (t.children id).filter p with
  | nil =>
    have hnone : (t.children id).any p = false := by
      rw [List.any_eq_false]
      exact List.filter_eq_nil_iff.1 hf
    simp [hnone]
  | cons c found =>
    have hc : c ∈ (t.children id).filter p := by rw [hf]; simp
    have hany : (t.children id).any p = true := List.any_eq_true.2 ⟨c, List.mem_filter.1 hc⟩
    simp [hany]

end Tree.Linked

/-- Metric and texts of a diagnostic are those of the lists that it holds; the lists mix the roles
and hold nothing twice. -/
structure Diagnostic.Coherent (d : Diagnostic) : Prop where
  metric : d.metric = severity d.integrations.length d.operations.length d.expressions.length
  integrationText : d.integrationText = String.join (d.integrations.map Evidence.integrationLine)
  operationText : d.operationText =
    String.join (d.operations.map Evidence.operationLine ++
      d.expressions.map Evidence.expressionLine)
  integrates : d.integrations ≠ []
  operates : d.operations ≠ [] ∨ d.expressions ≠ []
  nodup_integrations : d.integrations.Nodup
  nodup_operations : d.operations.Nodup
  nodup_expressions : d.expressions.Nodup

/-- The diagnostic for a method in which the given names and texts have been found. -/
def Diagnostic.ofFindings (m : Method) (integrations operations expressions : List String)
    (location : Location) : Diagnostic where
  methodName := m.name
  owningType := m.owningType
  metric := severity integrations.eraseDups.length operations.eraseDups.length
    expressions.eraseDups.length
  integrations := integrations.eraseDups
  operations := operations.eraseDups
  expressions := expressions.eraseDups
  integrationText := String.join (integrations.eraseDups.map Evidence.integrationLine)
  operationText := String.join (operations.eraseDups.map Evidence.operationLine ++
    expressions.eraseDups.map Evidence.expressionLine)
  location

theorem Diagnostic.ofEvidence_ofList (m : Method)
    (integrations operations expressions : List String) (location : Location) :
    ofEvidence m ⟨.ofList integrations, .ofList operations, .ofList expressions⟩ location =
      ofFindings m integrations operations expressions location := by
  simp only [ofEvidence, ofFindings, Evidence.metric, Evidence.integrationText,
    Evidence.operationText, Seen.toList_ofList, Seen.size_ofList]

theorem Seen.isEmpty_eq_false_iff (s : Seen) : s.isEmpty = false ↔ s.toList ≠ [] := by
  rw [isEmpty, toList, ne_eq, Array.toList_eq_nil_iff, ← Array.isEmpty_iff, Bool.not_eq_true]

theorem Evidence.isViolation_eq_true_iff (e : Evidence) :
    e.isViolation = true ↔
      e.integrations.toList ≠ [] ∧ (e.operations.toList ≠ [] ∨ e.expressions.toList ≠ []) := by
  simp only [isViolation, Bool.and_eq_true, Bool.or_eq_true, Bool.not_eq_true',
    Seen.isEmpty_eq_false_iff]

namespace SourceFile

/-- The names in the rulings of one sort on the calls among some nodes. -/
def namesIn (f : SourceFile) (table : ExclusionTable) (caller : String)
    (sort : Ruling → Option String) (nodes : List Nat) : List String :=
  (nodes.filter (f.tree.hasKind .invocation)).filterMap fun call =>
    (f.targets[call]?.map (.on table caller)).bind sort

theorem filterMap_rulings (f : SourceFile) (table : ExclusionTable) (caller : String)
    (sort : Ruling → Option String) (body : Nat) :
    (f.rulings table caller (f.calls body)).filterMap sort =
      f.namesIn table caller sort (f.tree.descendants body) := by
  rw [rulings, calls, Tree.find_everywhere, List.filterMap_filterMap, namesIn]

theorem evidence_unlimited (f : SourceFile) (table : ExclusionTable) (caller : String)
    (body : Nat) :
    (f.evidence table caller body .unlimited).1 = some (f.fullEvidence table caller body) := by
  have hb : Budget.unlimited.WithinLimit := by
    intro k hk
    cases hk
  rw [f.evidence_eq table caller body hb]
  rfl

/-- A diagnostic is made from all the evidence on the body of its method. -/
theorem judge_unlimited_eq_violation {f : SourceFile} {table : ExclusionTable} {m : Method}
    {d : Diagnostic} (h : (f.judge table m .unlimited).1 = .violation d) :
    ∃ body, m.body = some body ∧ (f.fullEvidence table m.name body).isViolation = true ∧
      d = .ofEvidence m (f.fullEvidence table m.name body) (f.locationOf m body) := by
  rw [judge_unlimited] at h
  cases hb : f.bodyOf m with
  | error reason => rw [hb] at h; cases h
  | ok body =>
    rw [hb] at h
    simp only [outcomeOf] at h
    split at h
    · next hv =>
      cases h
      exact ⟨body, (bodyOf_eq_ok_iff.1 hb).2.1, hv, rfl⟩
    · cases h

/-- The outcome for a method of a loaded file in which both roles are found, by the targets of the
model and the texts of the expressions. -/
theorem judge_of_findings {m : FileModel} {f : SourceFile} (hload : m.load = .ok f)
    (table : ExclusionTable) (p : Method) (body : Nat) (found : List Ruling) (texts : List String)
    (hbody : f.bodyOf p = .ok body)
    (hfound : (f.calls body).filterMap (fun call => (m.targetAt? call).map (.on table p.name)) =
      found)
    (htexts : f.expressions body = texts) (hintegrates : found.filterMap Ruling.integrated? ≠ [])
    (hoperates : found.filterMap Ruling.operated? ≠ [] ∨ texts ≠ []) :
    (f.judge table p .unlimited).1 =
      .violation (.ofFindings p (found.filterMap Ruling.integrated?)
        (found.filterMap Ruling.operated?) texts (f.locationOf p body)) := by
  have hrulings : f.rulings table p.name (f.calls body) = found := by
    simp only [rulings, (FileModel.represents_of_load hload).target, hfound]
  have hevidence : f.fullEvidence table p.name body =
      ⟨.ofList (found.filterMap Ruling.integrated?), .ofList (found.filterMap Ruling.operated?),
        .ofList texts⟩ := by
    rw [fullEvidence, hrulings, htexts]
  rw [judge_unlimited, hbody]
  dsimp only
  rw [outcomeOf, hevidence, if_pos (Evidence.isViolation_ofList.2 ⟨hintegrates, hoperates⟩),
    Diagnostic.ofEvidence_ofList]

theorem coherent_ofEvidence {f : SourceFile} {table : ExclusionTable} {caller : String} {body : Nat}
    (h : (f.fullEvidence table caller body).isViolation = true) (m : Method) (location : Location) :
    (Diagnostic.ofEvidence m (f.fullEvidence table caller body) location).Coherent := by
  rw [Evidence.isViolation_eq_true_iff] at h
  have hnodup : ∀ texts, (Seen.ofList texts).toList.Nodup := by
    intro texts
    rw [Seen.toList_ofList]
    exact nodup_eraseDups texts
  exact ⟨rfl, rfl, rfl, h.1, h.2, hnodup _, hnodup _, hnodup _⟩

/-- In a tree that has been built, the evidence on any body is given by two recursions on the tree:
the listing of all nodes below a node, and the outermost expressions that compute. The names of
calls come in the order of the listing, and repetitions are left out. A diagnostic holds that
evidence, and its metric and texts are those of the lists that it holds. -/
theorem evidence_of_built_tree (path : Path) (steps : List BuildStep) (generated : Bool)
    (methods : List Method) (targets : Std.HashMap Nat Target) (table : ExclusionTable) :
    let t := Tree.performAll { path } steps
    let f : SourceFile := { tree := t, generated, methods, targets }
    (∀ id, t.descendants id = (t.children id).flatMap fun c => c :: t.descendants c) ∧
    (∀ id, t.outermost t.isComputed id =
      if (t.children id).any t.isComputed then (t.children id).filter t.isComputed
      else (t.children id).flatMap (t.outermost t.isComputed)) ∧
    (∀ caller body, ∃ e b, f.evidence table caller body .unlimited = (some e, b) ∧
      e.integrations.toList =
        (f.namesIn table caller Ruling.integrated? (t.descendants body)).eraseDups ∧
      e.operations.toList =
        (f.namesIn table caller Ruling.operated? (t.descendants body)).eraseDups ∧
      e.expressions.toList = ((t.outermost t.isComputed body).map t.text).eraseDups) ∧
    (∀ m d, (f.judge table m .unlimited).1 = .violation d →
      d.Coherent ∧
      ∃ body e b, m.body = some body ∧ f.evidence table m.name body .unlimited = (some e, b) ∧
        d.integrations = e.integrations.toList ∧ d.operations = e.operations.toList ∧
        d.expressions = e.expressions.toList) := by
  intro t f
  have ht : t.Linked := (Tree.linked_empty path).performAll steps
  have hevidence : ∀ caller body, f.evidence table caller body .unlimited =
      (some (f.fullEvidence table caller body), (f.evidence table caller body .unlimited).2) := by
    intro caller body
    rw [← f.evidence_unlimited]
  refine ⟨ht.descendants_eq, ht.outermost_eq t.isComputed, ?_, ?_⟩
  · intro caller body
    refine ⟨_, _, hevidence caller body, ?_, ?_, ?_⟩
    · rw [fullEvidence, Seen.toList_ofList, filterMap_rulings]
    · rw [fullEvidence, Seen.toList_ofList, filterMap_rulings]
    · rw [fullEvidence, Seen.toList_ofList, expressions, Tree.find_shallowest]
  · intro m d h
    obtain ⟨body, hbody, hv, rfl⟩ := judge_unlimited_eq_violation h
    exact ⟨coherent_ofEvidence hv m _, body, _, _, hbody, hevidence m.name body, rfl, rfl, rfl⟩

end SourceFile

end MethodRoles
