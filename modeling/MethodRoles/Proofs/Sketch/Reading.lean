import MethodRoles.Proofs.Role.Evidence
import MethodRoles.Proofs.Sketch.Forest
import MethodRoles.Proofs.Tree.Search

/-!
# Reading trees back as sketches

What lies below a node of a file can be read back as a sketch. All evidence on a body is evidence on
the sketch that is read there, so that neither the names of the nodes nor anything outside of the
body has a part in it.
-/
namespace MethodRoles

def Tree.kind? (t : Tree) (id : Nat) : Option NodeKind := (t.node? id).map (·.kind)

theorem Tree.hasKind_iff {t : Tree} {kind : NodeKind} {id : Nat} :
    t.hasKind kind id = true ↔ t.kind? id = some kind := by
  rw [hasKind, kind?]
  cases t.node? id <;> simp

namespace SourceFile

/-- The node of the given name and what is below it, with the targets of calls. -/
def sketchAt (f : SourceFile) (id : Nat) : Sketch :=
  { kind := (f.tree.kind? id).getD .other
    text := f.tree.text id
    target := f.targets[id]?
    children := (f.tree.below id).attach.map fun c => f.sketchAt c.1 }
termination_by f.tree.size - id
decreasing_by have := Tree.mem_below c.2; omega

theorem sketchAt_eq (f : SourceFile) (id : Nat) :
    f.sketchAt id =
      { kind := (f.tree.kind? id).getD .other
        text := f.tree.text id
        target := f.targets[id]?
        children := (f.tree.below id).map f.sketchAt } := by
  rw [sketchAt]
  simp

@[simp] theorem kind_sketchAt (f : SourceFile) (id : Nat) :
    (f.sketchAt id).kind = (f.tree.kind? id).getD .other := by rw [sketchAt_eq]

@[simp] theorem text_sketchAt (f : SourceFile) (id : Nat) :
    (f.sketchAt id).text = f.tree.text id := by
  rw [sketchAt_eq]

@[simp] theorem target_sketchAt (f : SourceFile) (id : Nat) :
    (f.sketchAt id).target = f.targets[id]? := by
  rw [sketchAt_eq]

@[simp] theorem children_sketchAt (f : SourceFile) (id : Nat) :
    (f.sketchAt id).children = (f.tree.below id).map f.sketchAt := by rw [sketchAt_eq]

/-- The kind is read back, as no node that is missing has one of the kinds that matter. -/
theorem kind_sketchAt_iff (f : SourceFile) {kind : NodeKind} (h : kind ≠ .other) (id : Nat) :
    (f.sketchAt id).kind = kind ↔ f.tree.hasKind kind id = true := by
  rw [kind_sketchAt, Tree.hasKind_iff]
  cases f.tree.kind? id with
  | none => simpa using Ne.symm h
  | some k => simp

theorem map_sketchAt_descendants (f : SourceFile) (id : Nat) :
    (f.tree.descendants id).map f.sketchAt = Sketch.preorderAll (f.sketchAt id).children := by
  rw [children_sketchAt, Sketch.preorderAll_eq_flatMap, List.flatMap_map]
  fun_induction Tree.descendants f.tree id with
  | case1 id ih =>
    rw [List.map_flatMap, List.flatMap_subtype (g := fun c => (f.sketchAt c).preorder),
      List.unattach_attach]
    intro c hc
    rw [List.map_cons, ih ⟨c, hc⟩, Sketch.preorder_eq, children_sketchAt,
      Sketch.preorderAll_eq_flatMap, List.flatMap_map]

end SourceFile

namespace Sketch

mutual

/-- The children that compute if there are any, else those found below the children. -/
def computed : Sketch → List Sketch
  | ⟨kind, _, _, children⟩ =>
    match children.filter fun c => c.kind = .binaryExpression && kind ≠ .forLoop with
    | [] => computedAll children
    | found => found

def computedAll : List Sketch → List Sketch
  | [] => []
  | s :: rest => s.computed ++ computedAll rest

end

theorem computedAll_eq_flatMap (forest : List Sketch) :
    computedAll forest = forest.flatMap computed := by
  induction forest with
  | nil => rw [computedAll, List.flatMap_nil]
  | cons s rest ih => rw [computedAll, ih, List.flatMap_cons]

theorem computed_eq (s : Sketch) :
    s.computed =
      match s.children.filter fun c => c.kind = .binaryExpression && s.kind ≠ .forLoop with
      | [] => s.children.flatMap computed
      | found => found := by
  cases s
  rw [computed, computedAll_eq_flatMap]

/-- The rulings on the resolved calls below a sketch. -/
def rulings (s : Sketch) (table : ExclusionTable) (caller : String) : List Ruling :=
  ((preorderAll s.children).filter (·.kind = .invocation)).filterMap fun c =>
    c.target.map (.on table caller)

def evidence (s : Sketch) (table : ExclusionTable) (caller : String) : Evidence where
  integrations := .ofList ((s.rulings table caller).filterMap Ruling.integrated?)
  operations := .ofList ((s.rulings table caller).filterMap Ruling.operated?)
  expressions := .ofList (s.computed.map (·.text))

end Sketch

namespace SourceFile

theorem rulings_eq_sketchAt (f : SourceFile) (table : ExclusionTable) (caller : String)
    (body : Nat) :
    f.rulings table caller (f.calls body) = (f.sketchAt body).rulings table caller := by
  have hkind : (fun s : Sketch => decide (s.kind = .invocation)) ∘ f.sketchAt =
      f.tree.hasKind .invocation := by
    funext x
    rw [Function.comp_apply, Bool.eq_iff_iff, decide_eq_true_iff, kind_sketchAt_iff f (by decide)]
  rw [rulings, calls, Tree.find_everywhere, Sketch.rulings, ← map_sketchAt_descendants,
    List.filter_map, hkind, List.filterMap_map]
  congr 1
  funext x
  rw [Function.comp_apply, target_sketchAt]

/-- Whether a child computes can be told from its kind and the kind of the node that lists it. -/
theorem isComputed_of_mem_below {f : SourceFile} (h : f.tree.Linked) {id c : Nat}
    (hc : c ∈ f.tree.below id) :
    f.tree.isComputed c =
      (decide ((f.sketchAt c).kind = .binaryExpression) &&
        decide ((f.sketchAt id).kind ≠ .forLoop)) := by
  rw [h.below_eq] at hc
  have hp : f.tree.parent? c = some id := h.agree.2 hc
  rw [Tree.isComputed, hp, Option.any_some, decide_not, Bool.eq_iff_iff]
  simp only [Bool.and_eq_true, Bool.not_eq_true', decide_eq_true_iff, decide_eq_false_iff_not,
    kind_sketchAt_iff f (show NodeKind.binaryExpression ≠ .other by decide),
    kind_sketchAt_iff f (show NodeKind.forLoop ≠ .other by decide), Bool.not_eq_true]

theorem map_sketchAt_outermost {f : SourceFile} (h : f.tree.Linked) (id : Nat) :
    (f.tree.outermost f.tree.isComputed id).map f.sketchAt = (f.sketchAt id).computed := by
  have hfilter : ∀ id, (f.sketchAt id).children.filter
      (fun c => c.kind = .binaryExpression && (f.sketchAt id).kind ≠ .forLoop) =
        ((f.tree.below id).filter f.tree.isComputed).map f.sketchAt := by
    intro id
    rw [children_sketchAt, List.filter_map]
    congr 1
    refine List.filter_congr fun c hc => ?_
    rw [isComputed_of_mem_below h hc]
    rfl
  fun_induction Tree.outermost f.tree f.tree.isComputed id with
  | case1 id hm ih =>
    rw [Sketch.computed_eq, hfilter, hm, List.map_nil, children_sketchAt, List.flatMap_map,
      List.map_flatMap, List.flatMap_subtype (g := fun c => (f.sketchAt c).computed),
      List.unattach_attach]
    intro c hc
    exact ih ⟨c, hc⟩
  | case2 id hm =>
    rw [Sketch.computed_eq, hfilter]
    split
    · next he => exact absurd (List.map_eq_nil_iff.1 he) hm
    · rfl

/-- The evidence on a body can be told from the sketch that is read there. -/
theorem fullEvidence_eq_sketchAt {f : SourceFile} (h : f.tree.Linked) (table : ExclusionTable)
    (caller : String) (body : Nat) :
    f.fullEvidence table caller body = (f.sketchAt body).evidence table caller := by
  have hexp : f.expressions body = (f.sketchAt body).computed.map (·.text) := by
    rw [expressions, Tree.find_shallowest, ← map_sketchAt_outermost h, List.map_map]
    congr 1
    funext x
    rw [Function.comp_apply, text_sketchAt]
  rw [fullEvidence, rulings_eq_sketchAt, hexp]
  rfl

end SourceFile

/-!
## What is found in sketches

The evidence on a sketch is made of the names of calls and the texts of expressions in it. Both are
told here for forests, where they come one part after another: the names of all calls, the texts of
the expressions that compute on the first level, and those that are found below it.
-/

namespace Sketch

variable (table : ExclusionTable) (caller : String) (sort : Ruling → Option String)

/-- The name under which a sketch counts itself, if it is a resolved call with a ruling of the given
sort. -/
def foundName? (s : Sketch) : Option String :=
  if s.kind = .invocation then (s.target.map (.on table caller)).bind sort else none

/-- The names of the calls in a forest, in the order of the text. -/
def callNames (forest : List Sketch) : List String :=
  (preorderAll forest).filterMap (foundName? table caller sort)

theorem preorderAll_append (a b : List Sketch) :
    preorderAll (a ++ b) = preorderAll a ++ preorderAll b := by
  simp only [preorderAll_eq_flatMap, List.flatMap_append]

theorem callNames_append (a b : List Sketch) :
    callNames table caller sort (a ++ b) =
      callNames table caller sort a ++ callNames table caller sort b := by
  rw [callNames, preorderAll_append, List.filterMap_append, callNames, callNames]

theorem callNames_singleton (s : Sketch) :
    callNames table caller sort [s] =
      (s.foundName? table caller sort).toList ++ callNames table caller sort s.children := by
  rw [callNames, preorderAll_cons, preorderAll_nil, List.append_nil, List.filterMap_cons, callNames]
  cases s.foundName? table caller sort <;> rfl

theorem callNames_eq_flatMap (forest : List Sketch) :
    callNames table caller sort forest =
      forest.flatMap fun s => callNames table caller sort [s] := by
  induction forest with
  | nil => rfl
  | cons s rest ih =>
    rw [← List.singleton_append, callNames_append, ih, List.flatMap_append, List.flatMap_singleton]

theorem filterMap_rulings (s : Sketch) :
    (s.rulings table caller).filterMap sort = callNames table caller sort s.children := by
  rw [rulings, List.filterMap_filterMap, List.filterMap_filter, callNames]
  congr 1
  funext c
  simp only [foundName?, decide_eq_true_eq]

/-- The texts of the expressions in a forest that compute as children of a node of the given
kind. -/
def computedTexts (parent : NodeKind) (forest : List Sketch) : List String :=
  (forest.filter fun c => c.kind = .binaryExpression && parent ≠ .forLoop).map (·.text)

theorem computedTexts_append (parent : NodeKind) (a b : List Sketch) :
    computedTexts parent (a ++ b) = computedTexts parent a ++ computedTexts parent b := by
  simp only [computedTexts, List.filter_append, List.map_append]

/-- The texts of the outermost expressions that compute below a sketch. -/
def expressionTexts (s : Sketch) : List String := s.computed.map (·.text)

theorem expressionTexts_eq (s : Sketch) :
    s.expressionTexts =
      if computedTexts s.kind s.children = [] then s.children.flatMap expressionTexts
      else computedTexts s.kind s.children := by
  rw [expressionTexts, computed_eq, computedTexts]
  cases s.children.filter fun c => c.kind = .binaryExpression && s.kind ≠ .forLoop with
  | nil =>
    rw [List.map_nil, if_pos rfl, List.map_flatMap]
    rfl
  | cons c found => simp

theorem evidence_eq (s : Sketch) :
    s.evidence table caller =
      { integrations := .ofList (callNames table caller Ruling.integrated? s.children)
        operations := .ofList (callNames table caller Ruling.operated? s.children)
        expressions := .ofList s.expressionTexts } := by
  rw [evidence, filterMap_rulings, filterMap_rulings, expressionTexts]

end Sketch

end MethodRoles
