import MethodRoles.Proofs.Report.Parts
import MethodRoles.Proofs.Role.Cancellation
import MethodRoles.Proofs.Role.Classification
import MethodRoles.Proofs.Role.Evidence
import MethodRoles.Proofs.Sketch.Encoding
import MethodRoles.Proofs.Sketch.Reading

/-!
# Statements one after another

The search for expressions stops at the first level with a match, so that in general a part of a
body can hide another one. It does not in a block: what is no statement becomes part of one, and no
statement is an expression. So nothing is found on the level of the statements, and what is found in
a block is what is found in its statements one after another.
-/
namespace MethodRoles

/-- Each list holds what has been found in one place and then in another, without repetitions. -/
structure Evidence.Joined (e first second : Evidence) : Prop where
  integrations : e.integrations.toList =
    (first.integrations.toList ++ second.integrations.toList).eraseDups
  operations : e.operations.toList = (first.operations.toList ++ second.operations.toList).eraseDups
  expressions : e.expressions.toList =
    (first.expressions.toList ++ second.expressions.toList).eraseDups

theorem Seen.toList_ofList_append {texts a b : List String} (h : texts = a ++ b) :
    (Seen.ofList texts).toList = ((Seen.ofList a).toList ++ (Seen.ofList b).toList).eraseDups := by
  rw [h, toList_ofList, toList_ofList, toList_ofList, eraseDups_append_eraseDups]

namespace Sketch

theorem kind_asStatement_ne (s : Sketch) : s.asStatement.kind ≠ .binaryExpression := by
  rw [asStatement]
  split
  · next h =>
    intro hkind
    rw [hkind] at h
    cases h
  · intro hkind
    cases hkind

theorem computedTexts_statements (statements : List Sketch) :
    computedTexts .block (statements.map asStatement) = [] := by
  rw [computedTexts, List.map_eq_nil_iff, List.filter_eq_nil_iff]
  intro c hc
  obtain ⟨s, -, rfl⟩ := List.mem_map.1 hc
  simp [s.kind_asStatement_ne]

theorem expressionTexts_block (statements : List Sketch) :
    (block statements).expressionTexts = (statements.map asStatement).flatMap expressionTexts := by
  rw [expressionTexts_eq]
  exact if_pos (computedTexts_statements statements)

theorem evidence_block (table : ExclusionTable) (caller : String) (statements : List Sketch) :
    (block statements).evidence table caller =
      ⟨.ofList (callNames table caller Ruling.integrated? (statements.map asStatement)),
        .ofList (callNames table caller Ruling.operated? (statements.map asStatement)),
        .ofList ((statements.map asStatement).flatMap expressionTexts)⟩ := by
  rw [evidence_eq, expressionTexts_block]
  rfl

theorem evidence_block_of {table : ExclusionTable} {caller : String} {statements : List Sketch}
    {a b c : List String}
    (ha : callNames table caller Ruling.integrated? (statements.map asStatement) = a)
    (hb : callNames table caller Ruling.operated? (statements.map asStatement) = b)
    (hc : (statements.map asStatement).flatMap expressionTexts = c) :
    (block statements).evidence table caller = ⟨.ofList a, .ofList b, .ofList c⟩ := by
  rw [evidence_block, ha, hb, hc]

section

variable (table : ExclusionTable) (caller : String)

theorem callNames_statements_append (sort : Ruling → Option String) (s t : List Sketch) :
    callNames table caller sort ((s ++ t).map asStatement) =
      callNames table caller sort (s.map asStatement) ++
      callNames table caller sort (t.map asStatement) := by
  rw [List.map_append, callNames_append]

theorem expressionTexts_statements_append (s t : List Sketch) :
    ((s ++ t).map asStatement).flatMap expressionTexts =
      (s.map asStatement).flatMap expressionTexts ++
      (t.map asStatement).flatMap expressionTexts := by
  rw [List.map_append, List.flatMap_append]

theorem joined_block_append (s t : List Sketch) :
    ((block (s ++ t)).evidence table caller).Joined ((block s).evidence table caller)
      ((block t).evidence table caller) := by
  rw [evidence_block, evidence_block, evidence_block]
  refine ⟨?_, ?_, ?_⟩
  · exact Seen.toList_ofList_append (callNames_statements_append table caller _ s t)
  · exact Seen.toList_ofList_append (callNames_statements_append table caller _ s t)
  · exact Seen.toList_ofList_append (expressionTexts_statements_append s t)

/-- A list of what is found in a block is not empty exactly if that of one of its statements is
not. -/
theorem ne_nil_block_iff (part : Evidence → List String)
    (hpart : ∀ {e first second : Evidence}, e.Joined first second →
      part e = (part first ++ part second).eraseDups)
    (hnil : part ((block []).evidence table caller) = []) (statements : List Sketch) :
    part ((block statements).evidence table caller) ≠ [] ↔
      ∃ x ∈ statements, part ((block [x]).evidence table caller) ≠ [] := by
  induction statements with
  | nil => simp [hnil]
  | cons x rest ih =>
    rw [← List.singleton_append, hpart (joined_block_append table caller [x] rest), Ne,
      (SameFirsts.eraseDups _).eq_nil_iff, List.append_eq_nil_iff, not_and_or,
      List.singleton_append, List.exists_mem_cons_iff, ← ih]

/-- A block mixes the roles exactly if its statements do, each taken for itself. -/
theorem isViolation_block (statements : List Sketch) :
    ((block statements).evidence table caller).isViolation = true ↔
      (∃ x ∈ statements, ((block [x]).evidence table caller).integrations.toList ≠ []) ∧
      ∃ y ∈ statements, ((block [y]).evidence table caller).operations.toList ≠ [] ∨
        ((block [y]).evidence table caller).expressions.toList ≠ [] := by
  have hempty : (block []).evidence table caller = {} := evidence_block table caller []
  have hintegrations := ne_nil_block_iff table caller (·.integrations.toList)
    (fun h => h.integrations) (by rw [hempty]; rfl) statements
  have hoperations := ne_nil_block_iff table caller (·.operations.toList)
    (fun h => h.operations) (by rw [hempty]; rfl) statements
  have hexpressions := ne_nil_block_iff table caller (·.expressions.toList)
    (fun h => h.expressions) (by rw [hempty]; rfl) statements
  rw [Evidence.isViolation_eq_true_iff, hintegrations, hoperations, hexpressions]
  simp only [and_or_left, exists_or]

end

/-- Targets are on invocations only. -/
def Placed (forest : List Sketch) : Prop :=
  ∀ s ∈ preorderAll forest, s.target ≠ none → s.kind = .invocation

instance (forest : List Sketch) : Decidable (Placed forest) :=
  inferInstanceAs (Decidable (∀ s ∈ preorderAll forest, s.target ≠ none → s.kind = .invocation))

theorem Placed.append {s t : List Sketch} (hs : Placed s) (ht : Placed t) : Placed (s ++ t) := by
  intro x hx
  rw [preorderAll_append, List.mem_append] at hx
  exact hx.elim (hs x) (ht x)

theorem Placed.of_mem {forest : List Sketch} (h : Placed forest) {s : Sketch} (hs : s ∈ forest) :
    Placed [s] := by
  intro x hx
  refine h x ?_
  rw [preorderAll_eq_flatMap, List.mem_flatMap] at hx ⊢
  obtain ⟨c, hc, hx⟩ := hx
  rw [List.mem_singleton] at hc
  exact ⟨s, hs, hc ▸ hx⟩

theorem Placed.block {statements : List Sketch} (h : Placed statements) :
    Placed [block statements] := by
  intro x hx
  rw [preorderAll_cons, preorderAll_nil, List.append_nil, List.mem_cons] at hx
  obtain rfl | hx := hx
  · exact fun hne => absurd rfl hne
  obtain ⟨c, hc, hx⟩ := List.mem_flatMap.1 (preorderAll_eq_flatMap _ ▸ hx)
  obtain ⟨s, hs, rfl⟩ := List.mem_map.1 hc
  have hold : ∀ y ∈ preorder s, y.target ≠ none → y.kind = .invocation := by
    intro y hy
    exact h.of_mem hs y (by rwa [preorderAll_eq_flatMap, List.flatMap_singleton])
  rw [asStatement] at hx
  split at hx
  · exact hold x hx
  · -- the statement that is put around `s` has no target
    rw [preorder_eq, List.mem_cons] at hx
    obtain rfl | hx := hx
    · exact fun hne => absurd rfl hne
    · rw [preorderAll_eq_flatMap, List.flatMap_singleton] at hx
      exact hold x hx

end Sketch

namespace FileSketch

open Sketch

/-- A file with one method in it. -/
def ofMethod (path : Path) (name : String) (statements : List Sketch) : FileSketch :=
  { path, methods := [.method name statements] }

/-- The evidence on the body of the first method, if the file can be loaded and has one. -/
def bodyEvidence? (table : ExclusionTable) (f : FileSketch) : Option Evidence :=
  match f.toModel.load with
  | .error _ => none
  | .ok u => u.methods.head?.bind fun m => m.body.bind fun body =>
    (u.evidence table m.name body .unlimited).1

variable {statements : List Sketch}

theorem exists_load_ofMethod (path : Path) (name : String) (h : Placed statements) :
    ∃ u, (ofMethod path name statements).toModel.load = .ok u ∧ u.generated = false ∧
      u.methods = [{ name, body := some 0 }] ∧ u.sketchAt 0 = block statements := by
  have hlisting : (ofMethod path name statements).listing = preorderAll [block statements] := rfl
  have hplaced : (ofMethod path name statements).listing.findIdx? misplaced = none := by
    rw [hlisting, List.findIdx?_eq_none_iff]
    exact fun s hs => misplaced_eq_false.2 (h.block s hs)
  have hload := load_toModel (ofMethod path name statements)
  rw [hplaced] at hload
  have hencodes := encodes_of_load hload
  refine ⟨_, hload, hencodes.generated, ?_, ?_⟩
  · rw [(FileModel.represents_of_load hload).methods, toModel_eq]
    rfl
  · refine hencodes.sketch 0 _ ?_
    rw [hlisting, preorderAll_cons]
    rfl

theorem bodyEvidence?_ofMethod (table : ExclusionTable) (path : Path) (name : String)
    (h : Placed statements) :
    (ofMethod path name statements).bodyEvidence? table =
      some ((block statements).evidence table name) := by
  obtain ⟨u, hload, -, hmethods, hsketch⟩ := exists_load_ofMethod path name h
  rw [bodyEvidence?, hload]
  simp only [hmethods, List.head?_cons, Option.bind_some]
  rw [SourceFile.evidence_unlimited,
    SourceFile.fullEvidence_eq_sketchAt (FileModel.linked_of_load hload), hsketch]

/-- A body that is read back as a block is judged by what is found in it. A block without statements
is skipped, and nothing is found in it either. -/
theorem diagnostic?_of_sketchAt {m : FileModel} {u : SourceFile} (hload : m.load = .ok u)
    (hsketch : u.sketchAt 0 = block statements) (table : ExclusionTable) (name : String) :
    ∃ location, (u.judge table { name, body := some 0 } .unlimited).1.diagnostic? =
      if ((block statements).evidence table name).isViolation then
        some (.ofEvidence { name, body := some 0 } ((block statements).evidence table name)
          location)
      else none := by
  have hblock : u.tree.hasKind .block 0 = true := by
    rw [← SourceFile.kind_sketchAt_iff u (by decide), hsketch]
    rfl
  have hchildren : u.tree.children 0 = [] ↔ statements = [] := by
    have hbelow := congrArg Sketch.children hsketch
    rw [SourceFile.children_sketchAt, (FileModel.linked_of_load hload).below_eq] at hbelow
    rw [← List.map_eq_nil_iff (f := u.sketchAt), hbelow]
    exact List.map_eq_nil_iff
  have hevidence : u.fullEvidence table name 0 = (block statements).evidence table name := by
    rw [SourceFile.fullEvidence_eq_sketchAt (FileModel.linked_of_load hload), hsketch]
  refine ⟨u.locationOf { name, body := some 0 } 0, ?_⟩
  by_cases hs : statements = []
  · have hskip : u.bodyOf { name, body := some 0 } = .error .emptyBody := by
      simp [SourceFile.bodyOf, MemberKind.isMethodLike, hblock, hchildren.2 hs]
    have hclean : ¬ ((block statements).evidence table name).isViolation = true := by
      rw [isViolation_block, hs]
      simp
    rw [SourceFile.judge_unlimited, hskip, if_neg hclean]
    rfl
  · have hadmits : u.Admits { name, body := some 0 } 0 := ⟨by simp, rfl, hblock, mt hchildren.1 hs⟩
    rw [SourceFile.judge_of_admits hadmits, SourceFile.outcomeOf, hevidence]
    split <;> rfl

/-- The method is reported exactly if its body mixes the roles. -/
theorem diagnostics_ofMethod (table : ExclusionTable) (path : Path) (name : String)
    (h : Placed statements) :
    ∃ location, diagnostics { exclusions := table } (ofMethod path name statements) =
      .ok (if ((block statements).evidence table name).isViolation then
        [.ofEvidence { name, body := some 0 } ((block statements).evidence table name) location]
      else []) := by
  obtain ⟨u, hload, hgenerated, hmethods, hsketch⟩ := exists_load_ofMethod path name h
  obtain ⟨location, hjudge⟩ := diagnostic?_of_sketchAt hload hsketch table name
  refine ⟨location, ?_⟩
  have hreport : Analyzer.report? { exclusions := table } .unlimited u { name, body := some 0 } =
      if ((block statements).evidence table name).isViolation then
        some (.ofEvidence { name, body := some 0 } ((block statements).evidence table name)
          location)
      else none := by
    rw [Analyzer.report?, hjudge]
    split
    · simp
    · rfl
  rw [diagnostics, hload]
  simp only [Except.map, Analyzer.diagnostics_eq, hgenerated, hmethods, List.filterMap_cons,
    hreport]
  cases ((block statements).evidence table name).isViolation <;> rfl

theorem exists_alone_iff (table : ExclusionTable) (path : Path) (name : String)
    (h : Placed statements) (p : Evidence → Prop) :
    (∃ x ∈ statements, ∃ e, (ofMethod path name [x]).bodyEvidence? table = some e ∧ p e) ↔
      ∃ x ∈ statements, p ((block [x]).evidence table name) := by
  refine exists_congr fun x => and_congr_right fun hx => ?_
  rw [bodyEvidence?_ofMethod table path name (h.of_mem hx)]
  constructor
  · rintro ⟨e, he, hp⟩
    rwa [Option.some.inj he]
  · exact fun hp => ⟨_, rfl, hp⟩

/-- What is found in a method is what is found in its first statements and then in the others, as if
each part was a method in a file of its own. So it is reported exactly if one statement on its own
integrates and one on its own operates or computes. -/
theorem statements_compose (path : Path) (name : String) (table : ExclusionTable)
    {s t : List Sketch} (hs : Placed s) (ht : Placed t) :
    (∃ e first second, (ofMethod path name (s ++ t)).bodyEvidence? table = some e ∧
      (ofMethod path name s).bodyEvidence? table = some first ∧
      (ofMethod path name t).bodyEvidence? table = some second ∧ e.Joined first second) ∧
    ∃ reported, diagnostics { exclusions := table } (ofMethod path name (s ++ t)) = .ok reported ∧
      (reported = [] ∨ ∃ d, reported = [d] ∧ d.methodName = name) ∧
      (reported ≠ [] ↔
        (∃ x ∈ s ++ t, ∃ e, (ofMethod path name [x]).bodyEvidence? table = some e ∧
          e.integrations.toList ≠ []) ∧
        ∃ y ∈ s ++ t, ∃ e, (ofMethod path name [y]).bodyEvidence? table = some e ∧
          (e.operations.toList ≠ [] ∨ e.expressions.toList ≠ [])) := by
  have hst := hs.append ht
  constructor
  · exact ⟨_, _, _, bodyEvidence?_ofMethod table path name hst,
      bodyEvidence?_ofMethod table path name hs, bodyEvidence?_ofMethod table path name ht,
      joined_block_append table name s t⟩
  · obtain ⟨location, hreport⟩ := diagnostics_ofMethod table path name hst
    refine ⟨_, hreport, ?_, ?_⟩
    · split
      · exact .inr ⟨_, rfl, rfl⟩
      · exact .inl rfl
    · rw [exists_alone_iff table path name hst (·.integrations.toList ≠ []),
        exists_alone_iff table path name hst fun e => e.operations.toList ≠ [] ∨
        e.expressions.toList ≠ [], ← isViolation_block]
      split
      · next hv => simp [hv]
      · next hv => simp [hv]

def loading : List Sketch := [(Sketch.call "Load()").user]

/-- A loop that calls the same method again, prints and has a sum in its body. -/
def counting : List Sketch :=
  [.forLoop (.ident "i") (.expr "i < n") (.ident "i")
    [(Sketch.call "Load()").user, (Sketch.call "Write(i)").external "System" "Console",
      .expr "i + 1"]]

theorem evidence_loading :
    (block loading).evidence .empty "Run" = ⟨.ofList ["Load"], .ofList [], .ofList []⟩ :=
  evidence_block_of (by decide +kernel) (by decide +kernel) (by decide +kernel)

theorem evidence_counting :
    (block counting).evidence .empty "Run" =
      ⟨.ofList ["Load"], .ofList ["Write"], .ofList ["i + 1"]⟩ :=
  evidence_block_of (by decide +kernel) (by decide +kernel) (by decide +kernel)

theorem evidence_loading_counting :
    (block (loading ++ counting)).evidence .empty "Run" =
      ⟨.ofList ["Load", "Load"], .ofList ["Write"], .ofList ["i + 1"]⟩ :=
  evidence_block_of (by decide +kernel) (by decide +kernel) (by decide +kernel)

/-- The two parts call the same method, which is listed once, and the method is reported. -/
theorem statements_compose_loading_counting :
    Placed loading ∧ Placed counting ∧
    ∃ e first second location,
      (ofMethod ⟨"A.cs"⟩ "Run" (loading ++ counting)).bodyEvidence? .empty = some e ∧
      (ofMethod ⟨"A.cs"⟩ "Run" loading).bodyEvidence? .empty = some first ∧
      (ofMethod ⟨"A.cs"⟩ "Run" counting).bodyEvidence? .empty = some second ∧
      e.Joined first second ∧
      (first.integrations.toList = ["Load"] ∧ first.operations.toList = [] ∧
        first.expressions.toList = []) ∧
      (second.integrations.toList = ["Load"] ∧ second.operations.toList = ["Write"] ∧
        second.expressions.toList = ["i + 1"]) ∧
      (e.integrations.toList = ["Load"] ∧ e.operations.toList = ["Write"] ∧
        e.expressions.toList = ["i + 1"]) ∧
      diagnostics { exclusions := .empty } (ofMethod ⟨"A.cs"⟩ "Run" (loading ++ counting)) =
        .ok [{
          methodName := "Run"
          metric := 1
          integrations := ["Load"]
          operations := ["Write"]
          expressions := ["i + 1"]
          integrationText := "- Integration: call to 'Load'\n"
          operationText := "- Operation: calling API 'Write'\n- Operation: expression 'i + 1'\n"
          location }] := by
  have hloading : Placed loading := by decide
  have hcounting : Placed counting := by decide
  obtain ⟨⟨e, first, second, he, hfirst, hsecond, hjoined⟩, -⟩ :=
    statements_compose ⟨"A.cs"⟩ "Run" .empty hloading hcounting
  obtain ⟨location, hreport⟩ :=
    diagnostics_ofMethod .empty ⟨"A.cs"⟩ "Run" (hloading.append hcounting)
  refine ⟨hloading, hcounting, e, first, second, location, he, hfirst, hsecond, hjoined, ?_, ?_, ?_,
    ?_⟩
  · rw [bodyEvidence?_ofMethod _ _ _ hloading, evidence_loading] at hfirst
    cases hfirst
    simp only [Seen.toList_ofList]
    decide
  · rw [bodyEvidence?_ofMethod _ _ _ hcounting, evidence_counting] at hsecond
    cases hsecond
    simp only [Seen.toList_ofList]
    decide
  · rw [bodyEvidence?_ofMethod _ _ _ (hloading.append hcounting), evidence_loading_counting] at he
    cases he
    simp only [Seen.toList_ofList]
    decide
  · rw [hreport, evidence_loading_counting,
      if_pos (Evidence.isViolation_ofList.2 ⟨by decide, by decide⟩), Diagnostic.ofEvidence_ofList]
    simp only [Diagnostic.ofFindings, Except.ok.injEq, List.cons.injEq, Diagnostic.mk.injEq,
      and_true, true_and]
    decide +kernel

end FileSketch

end MethodRoles
