import Mathlib.Data.Set.Function
import MethodRoles.Proofs.Role.Cancellation
import MethodRoles.Proofs.Sketch.Reading

/-!
# Only the body counts

Two bodies that differ in nothing but the names of their nodes have the same outcome, whatever else
is in their files: other nodes, calls and methods, and also what lies above the body. The two bodies
are read back as the same sketch, and the rest follows from that.
-/
namespace MethodRoles

namespace Tree

/-- A node and all that is below it. -/
def subtree (t : Tree) (root : Nat) : Set Nat := { x | Relation.ReflTransGen t.Lists root x }

theorem mem_subtree_of_lists {t : Tree} {root x c : Nat} (hx : x ∈ t.subtree root)
    (hc : t.Lists x c) :
    c ∈ t.subtree root :=
  Relation.ReflTransGen.tail hx hc

theorem Linked.mem_subtree {t : Tree} (h : t.Linked) {root x : Nat} :
    x ∈ t.subtree root ↔ x = root ∨ x ∈ t.descendants root := by
  rw [h.mem_descendants]
  exact Relation.reflTransGen_iff_eq_or_transGen

end Tree

namespace SourceFile

/-- The nodes of a subtree of `f` are mapped one to one to those of a subtree of `g`, and what they
hold is the same but for their names. -/
structure Renumbers (f g : SourceFile) (rename : Nat → Nat) (a b : Nat) : Prop where
  bijective : Set.BijOn rename (f.tree.subtree a) (g.tree.subtree b)
  root : rename a = b
  kind : ∀ x ∈ f.tree.subtree a, g.tree.kind? (rename x) = f.tree.kind? x
  text : ∀ x ∈ f.tree.subtree a, g.tree.text (rename x) = f.tree.text x
  children : ∀ x ∈ f.tree.subtree a, g.tree.children (rename x) = (f.tree.children x).map rename
  target : ∀ x ∈ f.tree.subtree a, f.tree.kind? x = some .invocation →
    g.targets[rename x]? = f.targets[x]?

/-- Only invocations of a loaded file have targets. -/
theorem target_eq_none {m : FileModel} {f : SourceFile} (h : m.load = .ok f) {x : Nat}
    (hx : f.tree.kind? x ≠ some .invocation) : f.targets[x]? = none := by
  have hrep := FileModel.represents_of_load h
  have hvalid : m.Valid := FileModel.faults_eq_nil.1 (FileModel.load_eq_ok_iff.1 h).1
  have hnone : m.calls.filter (·.node = x) = [] := by
    rw [List.filter_eq_nil_iff]
    intro call hcall hnode
    have hkind := hvalid.calls call hcall
    rw [decide_eq_true_iff] at hnode
    rw [hnode, ← hrep.hasKind, Tree.hasKind_iff] at hkind
    exact hx hkind
  rw [hrep.target, FileModel.targetAt?, hnone]
  rfl

variable {m n : FileModel} {f g : SourceFile} {rename : Nat → Nat} {a b : Nat}

/-- Nodes of one kind have the same target if they have it as invocations. -/
theorem target_eq_of_kind_eq (hf : m.load = .ok f) (hg : n.load = .ok g) {x y : Nat}
    (hkind : g.tree.kind? y = f.tree.kind? x)
    (htarget : f.tree.kind? x = some .invocation → g.targets[y]? = f.targets[x]?) :
    g.targets[y]? = f.targets[x]? := by
  by_cases hk : f.tree.kind? x = some .invocation
  · exact htarget hk
  · have hk' : g.tree.kind? y ≠ some .invocation := by rwa [hkind]
    rw [target_eq_none hf hk, target_eq_none hg hk']

theorem Renumbers.target_eq (h : f.Renumbers g rename a b) (hf : m.load = .ok f)
    (hg : n.load = .ok g)
    {x : Nat} (hx : x ∈ f.tree.subtree a) : g.targets[rename x]? = f.targets[x]? :=
  target_eq_of_kind_eq hf hg (h.kind x hx) (h.target x hx)

theorem Renumbers.below_eq (h : f.Renumbers g rename a b) (hf : f.tree.Linked) (hg : g.tree.Linked)
    {x : Nat} (hx : x ∈ f.tree.subtree a) :
    g.tree.below (rename x) = (f.tree.below x).map rename := by
  rw [hf.below_eq, hg.below_eq, h.children x hx]

theorem Renumbers.sketchAt_eq (h : f.Renumbers g rename a b) (hf : m.load = .ok f)
    (hg : n.load = .ok g)
    {x : Nat} (hx : x ∈ f.tree.subtree a) : g.sketchAt (rename x) = f.sketchAt x := by
  -- children come after their parent, so that the distance to the last node gets smaller
  induction hn : f.tree.size - x using Nat.strongRecOn generalizing x with
  | ind k ih =>
    have hbelow := h.below_eq (FileModel.linked_of_load hf) (FileModel.linked_of_load hg) hx
    have hchildren : (g.tree.below (rename x)).map g.sketchAt =
        (f.tree.below x).map f.sketchAt := by
      rw [hbelow, List.map_map]
      refine List.map_congr_left fun c hc => ?_
      have hlt := Tree.mem_below hc
      have hsub := Tree.mem_subtree_of_lists hx (List.mem_filter.1 hc).1
      exact ih (f.tree.size - c) (by omega) hsub rfl
    rw [SourceFile.sketchAt_eq g, SourceFile.sketchAt_eq f, hchildren, h.kind x hx, h.text x hx,
      h.target_eq hf hg hx]

/-- A body is taken or skipped for its kind, and for whether it has children. -/
theorem bodyOf_eq_map {p q : Method} (hkind : p.kind = q.kind) (hp : p.body = some a)
    (hq : q.body = some b) (hroot : g.tree.kind? b = f.tree.kind? a)
    (hempty : g.tree.children b = [] ↔ f.tree.children a = []) :
    g.bodyOf q = (f.bodyOf p).map fun _ => b := by
  have hblock : g.tree.hasKind .block b = f.tree.hasKind .block a := by
    rw [Bool.eq_iff_iff, Tree.hasKind_iff, Tree.hasKind_iff, hroot]
  simp only [bodyOf, hp, hq, hkind, hblock, hempty]
  split
  · rfl
  split
  · rfl
  split
  · rfl
  · rfl

theorem Renumbers.bodyOf_eq (h : f.Renumbers g rename a b) {p q : Method} (hkind : p.kind = q.kind)
    (hp : p.body = some a) (hq : q.body = some b) : g.bodyOf q = (f.bodyOf p).map fun _ => b := by
  have ha : a ∈ f.tree.subtree a := .refl
  refine bodyOf_eq_map hkind hp hq ?_ ?_
  · rw [← h.root, h.kind a ha]
  · rw [← h.root, h.children a ha, List.map_eq_nil_iff]

end SourceFile

/-- The outcome with the owning type and the location of another method. -/
def Outcome.placedAt (owningType : String) (location : Location) : Outcome → Outcome
  | .violation d => .violation { d with owningType, location }
  | outcome => outcome

namespace SourceFile

/-- The same evidence on bodies that are both taken or both skipped leads to the same outcome. -/
theorem judge_placedAt {f g : SourceFile} {p q : Method} {a b : Nat} {table : ExclusionTable}
    (hname : p.name = q.name) (hp : p.body = some a)
    (hbody : g.bodyOf q = (f.bodyOf p).map fun _ => b)
    (hevidence : g.fullEvidence table q.name b = f.fullEvidence table q.name a) :
    (g.judge table q .unlimited).1 =
      (f.judge table p .unlimited).1.placedAt q.owningType (g.locationOf q b) := by
  rw [judge_unlimited, judge_unlimited, hbody]
  cases hb : f.bodyOf p with
  | error reason => rfl
  | ok body =>
    have ha : p.body = some body := (bodyOf_eq_ok_iff.1 hb).2.1
    rw [hp, Option.some.injEq] at ha
    subst ha
    simp only [Except.map, outcomeOf]
    rw [hevidence, ← hname]
    split
    · simp [Outcome.placedAt, Diagnostic.ofEvidence, hname]
    · rfl

/-- Two methods of loaded files with the same name and kind, whose bodies differ only in the names
of nodes, have the same outcome up to owning type and location. -/
theorem judge_renumbered {m n : FileModel} {f g : SourceFile} (hf : m.load = .ok f)
    (hg : n.load = .ok g) {p q : Method} (hname : p.name = q.name) (hkind : p.kind = q.kind)
    {a b : Nat} (hp : p.body = some a) (hq : q.body = some b) {rename : Nat → Nat}
    (h : f.Renumbers g rename a b) (table : ExclusionTable) :
    (g.judge table q .unlimited).1 =
      (f.judge table p .unlimited).1.placedAt q.owningType (g.locationOf q b) := by
  have hsketch : g.sketchAt b = f.sketchAt a := by
    rw [← h.root]
    exact h.sketchAt_eq hf hg .refl
  refine judge_placedAt hname hp (h.bodyOf_eq hkind hp hq) ?_
  rw [fullEvidence_eq_sketchAt (FileModel.linked_of_load hg),
    fullEvidence_eq_sketchAt (FileModel.linked_of_load hf), hsketch]

/-- A sum and a call. -/
def aloneInFile : FileModel where
  path := ⟨"A.cs"⟩
  nodes :=
    [{ kind := .block, children := [1, 2] }, { kind := .binaryExpression, text := "a + b" },
      { kind := .invocation, text := "Load()" }]
  calls := [{ node := 2, target := .user "Load" }]

/-- The same sum and call under other names in a block inside of a loop, with another call after
it. -/
def amongOthers : FileModel where
  path := ⟨"B.cs"⟩
  nodes :=
    [{ kind := .forLoop, children := [1, 4] }, { kind := .block, children := [3, 2] },
      { kind := .invocation, text := "Load()" }, { kind := .binaryExpression, text := "a + b" },
      { kind := .invocation, text := "Write()" }]
  calls :=
    [{ node := 4, target := .external "System" "Console" "Write" },
      { node := 2, target := .user "Load" }]

def newName : Nat → Nat
  | 0 => 1
  | 1 => 3
  | x => x

theorem load_aloneInFile : aloneInFile.load = .ok aloneInFile.loaded :=
  FileModel.load_eq_ok_iff.2 ⟨by decide, rfl⟩

theorem load_amongOthers : amongOthers.load = .ok amongOthers.loaded :=
  FileModel.load_eq_ok_iff.2 ⟨by decide, rfl⟩

theorem subtree_aloneInFile : aloneInFile.loaded.tree.subtree 0 = {0, 1, 2} := by
  have h : aloneInFile.loaded.tree.descendants 0 = [1, 2] := by decide +kernel
  ext x
  simp [(FileModel.linked_of_load load_aloneInFile).mem_subtree, h]

theorem subtree_amongOthers : amongOthers.loaded.tree.subtree 1 = {1, 3, 2} := by
  have h : amongOthers.loaded.tree.descendants 1 = [3, 2] := by decide +kernel
  ext x
  simp [(FileModel.linked_of_load load_amongOthers).mem_subtree, h]

theorem renumbers_amongOthers : aloneInFile.loaded.Renumbers amongOthers.loaded newName 0 1 where
  bijective := by
    rw [subtree_aloneInFile, subtree_amongOthers]
    refine ⟨?_, ?_, ?_⟩
    · rintro x (rfl | rfl | rfl) <;> decide
    · rintro x (rfl | rfl | rfl) y (rfl | rfl | rfl) <;> decide
    · rintro y (rfl | rfl | rfl)
      · exact ⟨0, by simp, rfl⟩
      · exact ⟨1, by simp, rfl⟩
      · exact ⟨2, by simp, rfl⟩
  root := rfl
  kind := by
    rw [subtree_aloneInFile]
    rintro x (rfl | rfl | rfl) <;> decide
  text := by
    rw [subtree_aloneInFile]
    rintro x (rfl | rfl | rfl) <;> decide
  children := by
    rw [subtree_aloneInFile]
    rintro x (rfl | rfl | rfl) <;> decide
  target := by
    rw [subtree_aloneInFile]
    intro x hx _
    -- the table itself does not compute, what the model says about a target does
    rw [(FileModel.represents_of_load load_amongOthers).target,
      (FileModel.represents_of_load load_aloneInFile).target]
    obtain rfl | rfl | rfl := hx <;> decide

theorem judge_renumbered_among_others :
    aloneInFile.load = .ok aloneInFile.loaded ∧ amongOthers.load = .ok amongOthers.loaded ∧
    aloneInFile.loaded.Renumbers amongOthers.loaded newName 0 1 ∧
    (amongOthers.loaded.judge .empty { name := "Run", body := some 1 } .unlimited).1 =
      (aloneInFile.loaded.judge .empty { name := "Run", body := some 0 } .unlimited).1.placedAt ""
        (amongOthers.loaded.locationOf { name := "Run", body := some 1 } 1) := by
  refine ⟨load_aloneInFile, load_amongOthers, renumbers_amongOthers, ?_⟩
  exact judge_renumbered (p := { name := "Run", body := some 0 })
    (q := { name := "Run", body := some 1 }) load_aloneInFile load_amongOthers rfl rfl rfl rfl
    renumbers_amongOthers .empty

end SourceFile

end MethodRoles
