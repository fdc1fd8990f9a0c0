import MethodRoles.Proofs.Role.Classification
import MethodRoles.Proofs.Role.Evidence
import MethodRoles.Proofs.Role.Locality
import MethodRoles.Proofs.Sketch.Reading

/-!
# Code that is repeated

A part of a body may stand a second time after itself. The copy adds no name and no text that has
not been found before, and it does not change on which level expressions are found. This holds at
the node that lists the copy, and from there on for each node above it up to the body.
-/
namespace MethodRoles

namespace Sketch

/-- A forest with a sketch and the same sketch again is not told apart from the forest without the
second one by anything that is found part by part. -/
theorem sameFirsts_repeated (found : List Sketch → List String)
    (happend : ∀ a b, found (a ++ b) = found a ++ found b) (before between after : List Sketch)
    (c : Sketch) :
    SameFirsts (found (before ++ c :: (between ++ c :: after)))
      (found (before ++ c :: (between ++ after))) := by
  have hagain : before ++ c :: (between ++ c :: after) =
      (before ++ [c] ++ between) ++ [c] ++ after := by simp
  have honce : before ++ c :: (between ++ after) = (before ++ [c] ++ between) ++ after := by simp
  rw [hagain, honce, happend _ after, happend _ [c], happend _ after]
  refine .append (.append_of_subset ?_) (.refl _)
  rw [happend, happend]
  exact fun text htext => List.mem_append_left _ (List.mem_append_right _ htext)

/-- Two sketches that count for the same themselves, and in which the same is found. -/
structure Alike (s s' : Sketch) : Prop where
  kind : s'.kind = s.kind
  text : s'.text = s.text
  target : s'.target = s.target
  names : ∀ table caller sort,
    SameFirsts (callNames table caller sort s'.children) (callNames table caller sort s.children)
  expressions : SameFirsts s'.expressionTexts s.expressionTexts

namespace Alike

variable {s s' s'' : Sketch}

theorem refl (s : Sketch) : s.Alike s := ⟨rfl, rfl, rfl, fun _ _ _ => .refl _, .refl _⟩

theorem trans (h : s.Alike s') (h' : s'.Alike s'') : s.Alike s'' where
  kind := h'.kind.trans h.kind
  text := h'.text.trans h.text
  target := h'.target.trans h.target
  names table caller sort := (h'.names table caller sort).trans (h.names table caller sort)
  expressions := h'.expressions.trans h.expressions

theorem evidence_eq (h : s.Alike s') (table : ExclusionTable) (caller : String) :
    s'.evidence table caller = s.evidence table caller := by
  rw [Sketch.evidence_eq, Sketch.evidence_eq, Seen.ofList_eq_of_sameFirsts (h.names table caller _),
    Seen.ofList_eq_of_sameFirsts (h.names table caller _),
    Seen.ofList_eq_of_sameFirsts h.expressions]

theorem foundName?_eq (h : s.Alike s') (table : ExclusionTable) (caller : String)
    (sort : Ruling → Option String) :
    s'.foundName? table caller sort = s.foundName? table caller sort := by
  rw [foundName?, foundName?, h.kind, h.target]

theorem computedTexts_eq (parent : NodeKind) {forest forest' : List Sketch}
    (h : List.Forall₂ Alike forest forest') :
    computedTexts parent forest' = computedTexts parent forest := by
  induction h with
  | nil => rfl
  | cons hcd _ ih =>
    rw [computedTexts, computedTexts] at ih ⊢
    rw [List.filter_cons, List.filter_cons, hcd.kind]
    split
    · rw [List.map_cons, List.map_cons, hcd.text, ih]
    · exact ih

/-- Where expressions are found on the first level is decided by that level alone. -/
theorem of_findings (hkind : s'.kind = s.kind) (htext : s'.text = s.text)
    (htarget : s'.target = s.target) (hnames : ∀ table caller sort,
      SameFirsts (callNames table caller sort s'.children) (callNames table caller sort s.children))
    (hlevel : SameFirsts (computedTexts s.kind s'.children) (computedTexts s.kind s.children))
    (hbelow : SameFirsts (s'.children.flatMap expressionTexts)
      (s.children.flatMap expressionTexts)) :
    s.Alike s' := by
  refine ⟨hkind, htext, htarget, hnames, ?_⟩
  rw [expressionTexts_eq, expressionTexts_eq s, hkind]
  simp only [hlevel.eq_nil_iff]
  split
  · exact hbelow
  · exact hlevel

/-- A sketch is like another one if their children are. -/
theorem of_children (hkind : s'.kind = s.kind) (htext : s'.text = s.text)
    (htarget : s'.target = s.target)
    (h : List.Forall₂ Alike s.children s'.children) : s.Alike s' := by
  have hflip : List.Forall₂ (fun d c => Alike c d) s'.children s.children := h.flip
  refine of_findings hkind htext htarget ?_ ?_ ?_
  · intro table caller sort
    rw [callNames_eq_flatMap, callNames_eq_flatMap table caller sort s.children]
    refine .flatMap (hflip.imp fun d c hcd => ?_)
    rw [callNames_singleton, callNames_singleton, hcd.foundName?_eq]
    exact .append (.refl _) (hcd.names table caller sort)
  · rw [computedTexts_eq s.kind h]
    exact .refl _
  · exact .flatMap (hflip.imp fun d c hcd => hcd.expressions)

/-- A sketch is like the one with one of its children repeated. -/
theorem of_repeated {before between after : List Sketch} {c : Sketch} (hkind : s'.kind = s.kind)
    (htext : s'.text = s.text) (htarget : s'.target = s.target)
    (h : s.children = before ++ c :: (between ++ after))
    (h' : s'.children = before ++ c :: (between ++ c :: after)) : s.Alike s' := by
  refine of_findings hkind htext htarget ?_ ?_ ?_
  · intro table caller sort
    rw [h, h']
    exact sameFirsts_repeated _ (callNames_append table caller sort) before between after c
  · rw [h, h']
    exact sameFirsts_repeated _ (computedTexts_append s.kind) before between after c
  · rw [h, h']
    exact sameFirsts_repeated (·.flatMap expressionTexts) (fun _ _ => List.flatMap_append) before
      between after c

/-- A sketch is like the one with one of its children repeated and others put in the place of the
old ones that are like them. -/
theorem of_inserted {before before' between between' after after' : List Sketch} {c c' : Sketch}
    (hkind : s'.kind = s.kind) (htext : s'.text = s.text) (htarget : s'.target = s.target)
    (h : s.children = before ++ c :: (between ++ after))
    (h' : s'.children = before' ++ c' :: (between' ++ c :: after'))
    (hbefore : List.Forall₂ Alike before before') (hc : c.Alike c')
    (hbetween : List.Forall₂ Alike between between') (hafter : List.Forall₂ Alike after after') :
    s.Alike s' := by
  have hrepeated : s.Alike { s with children := before ++ c :: (between ++ c :: after) } :=
    of_repeated rfl rfl rfl h rfl
  refine hrepeated.trans (of_children hkind htext htarget ?_)
  rw [h']
  exact List.rel_append hbefore (.cons hc (List.rel_append hbetween (.cons (refl c) hafter)))

end Alike

end Sketch

namespace SourceFile

/-- The subtree of `b` in `g` is that of `a` in `f`, but for the names of nodes and for a copy of
the child `c` of `p`, which comes somewhere after `c`. -/
structure Repeats (f g : SourceFile) (keep copy : Nat → Nat) (a b p c : Nat) : Prop where
  root : keep a = b
  inside : p ∈ f.tree.subtree a
  kind : ∀ x ∈ f.tree.subtree a, g.tree.kind? (keep x) = f.tree.kind? x
  text : ∀ x ∈ f.tree.subtree a, g.tree.text (keep x) = f.tree.text x
  target : ∀ x ∈ f.tree.subtree a, f.tree.kind? x = some .invocation →
    g.targets[keep x]? = f.targets[x]?
  children : ∀ x ∈ f.tree.subtree a, x ≠ p → g.tree.children (keep x) = (f.tree.children x).map keep
  inserted : ∃ before between after,
    f.tree.children p = before ++ c :: (between ++ after) ∧
    g.tree.children (keep p) = before.map keep ++ keep c ::
      (between.map keep ++ copy c :: after.map keep)
  copied : f.Renumbers g copy c (copy c)

namespace Repeats

variable {m n : FileModel} {f g : SourceFile} {keep copy : Nat → Nat} {a b p c : Nat}

theorem target_eq (h : f.Repeats g keep copy a b p c) (hf : m.load = .ok f) (hg : n.load = .ok g)
    {x : Nat} (hx : x ∈ f.tree.subtree a) : g.targets[keep x]? = f.targets[x]? :=
  target_eq_of_kind_eq hf hg (h.kind x hx) (h.target x hx)

theorem forall₂_alike {l : List Nat} (h : ∀ d ∈ l, (f.sketchAt d).Alike (g.sketchAt (keep d))) :
    List.Forall₂ Sketch.Alike (l.map f.sketchAt) ((l.map keep).map g.sketchAt) := by
  rw [List.forall₂_map_left_iff, List.forall₂_map_right_iff, List.forall₂_map_right_iff,
    List.forall₂_same]
  exact h

/-- A node is like the one it is kept as, if its children are. -/
theorem alike_of_children (h : f.Repeats g keep copy a b p c) (hf : m.load = .ok f)
    (hg : n.load = .ok g) {x : Nat} (hx : x ∈ f.tree.subtree a)
    (ih : ∀ d ∈ f.tree.children x, (f.sketchAt d).Alike (g.sketchAt (keep d))) :
    (f.sketchAt x).Alike (g.sketchAt (keep x)) := by
  have hkind : (g.sketchAt (keep x)).kind = (f.sketchAt x).kind := by
    rw [kind_sketchAt, kind_sketchAt, h.kind x hx]
  have htext : (g.sketchAt (keep x)).text = (f.sketchAt x).text := by
    rw [text_sketchAt, text_sketchAt, h.text x hx]
  have htarget : (g.sketchAt (keep x)).target = (f.sketchAt x).target := by
    rw [target_sketchAt, target_sketchAt, h.target_eq hf hg hx]
  have hbelow : (f.sketchAt x).children = (f.tree.children x).map f.sketchAt := by
    rw [children_sketchAt, (FileModel.linked_of_load hf).below_eq]
  have hbelow' : (g.sketchAt (keep x)).children = (g.tree.children (keep x)).map g.sketchAt := by
    rw [children_sketchAt, (FileModel.linked_of_load hg).below_eq]
  by_cases hp : x = p
  · -- the node that lists the copy
    subst hp
    obtain ⟨before, between, after, hchildren, hinserted⟩ := h.inserted
    have hcopy : g.sketchAt (copy c) = f.sketchAt c := h.copied.sketchAt_eq hf hg .refl
    simp only [hchildren, List.mem_append, List.mem_cons] at ih
    rw [hchildren, List.map_append, List.map_cons, List.map_append] at hbelow
    rw [hinserted, List.map_append, List.map_cons, List.map_append, List.map_cons, hcopy] at hbelow'
    refine .of_inserted hkind htext htarget hbelow hbelow' ?_ ?_ ?_ ?_
    · exact forall₂_alike fun d hd => ih d (.inl hd)
    · exact ih c (.inr (.inl rfl))
    · exact forall₂_alike fun d hd => ih d (.inr (.inr (.inl hd)))
    · exact forall₂_alike fun d hd => ih d (.inr (.inr (.inr hd)))
  · refine .of_children hkind htext htarget ?_
    rw [hbelow, hbelow', h.children x hx hp]
    exact forall₂_alike ih

theorem alike (h : f.Repeats g keep copy a b p c) (hf : m.load = .ok f) (hg : n.load = .ok g)
    {x : Nat} (hx : x ∈ f.tree.subtree a) : (f.sketchAt x).Alike (g.sketchAt (keep x)) := by
  -- children come after their parent, so that the distance to the last node gets smaller
  induction hn : f.tree.size - x using Nat.strongRecOn generalizing x with
  | ind k ih =>
    have hbelow : ∀ d ∈ f.tree.children x, (f.sketchAt d).Alike (g.sketchAt (keep d)) := by
      intro d hd
      rw [← (FileModel.linked_of_load hf).below_eq] at hd
      have hlt := Tree.mem_below hd
      have hsub := Tree.mem_subtree_of_lists hx (List.mem_filter.1 hd).1
      exact ih (f.tree.size - d) (by omega) hsub rfl
    exact h.alike_of_children hf hg hx hbelow

theorem fullEvidence_eq (h : f.Repeats g keep copy a b p c) (hf : m.load = .ok f)
    (hg : n.load = .ok g) (table : ExclusionTable) (caller : String) :
    g.fullEvidence table caller b = f.fullEvidence table caller a := by
  rw [fullEvidence_eq_sketchAt (FileModel.linked_of_load hg),
    fullEvidence_eq_sketchAt (FileModel.linked_of_load hf), ← h.root]
  exact (h.alike hf hg .refl).evidence_eq table caller

theorem children_eq_nil_iff (h : f.Repeats g keep copy a b p c) :
    g.tree.children b = [] ↔ f.tree.children a = [] := by
  rw [← h.root]
  by_cases hp : a = p
  · obtain ⟨before, between, after, hchildren, hinserted⟩ := h.inserted
    simp [hp, hchildren, hinserted]
  · rw [h.children a .refl hp, List.map_eq_nil_iff]

end Repeats

/-- What is found in a body is the same after a part of it has been repeated, for all exclusions and
callers. So methods with these bodies have the same outcome up to owning type and location. -/
theorem repetition_adds_nothing {m n : FileModel} {f g : SourceFile} (hf : m.load = .ok f)
    (hg : n.load = .ok g) {p q : Method} (hname : p.name = q.name) (hkind : p.kind = q.kind)
    {a b : Nat}
    (hp : p.body = some a) (hq : q.body = some b) {keep copy : Nat → Nat} {node child : Nat}
    (h : f.Repeats g keep copy a b node child) (table : ExclusionTable) :
    (∀ caller, ∃ e, (f.evidence table caller a .unlimited).1 = some e ∧
      (g.evidence table caller b .unlimited).1 = some e) ∧
    (g.judge table q .unlimited).1 =
      (f.judge table p .unlimited).1.placedAt q.owningType (g.locationOf q b) := by
  constructor
  · intro caller
    refine ⟨f.fullEvidence table caller a, evidence_unlimited f table caller a, ?_⟩
    rw [evidence_unlimited, h.fullEvidence_eq hf hg]
  · have hroot : g.tree.kind? b = f.tree.kind? a := by
      rw [← h.root]
      exact h.kind a .refl
    exact judge_placedAt hname hp (bodyOf_eq_map hkind hp hq hroot h.children_eq_nil_iff)
      (h.fullEvidence_eq hf hg table q.name)

/-- A call with a sum in it and another call, in a branch. -/
def calledOnce : FileModel where
  path := ⟨"A.cs"⟩
  nodes :=
    [{ kind := .block, children := [1] }, { kind := .ifStatement, children := [2, 4] },
      { kind := .invocation, text := "Load(x + 1)", children := [3] },
      { kind := .binaryExpression, text := "x + 1" }, { kind := .invocation, text := "Write()" }]
  calls :=
    [{ node := 2, target := .user "Load" },
      { node := 4, target := .external "System" "Console" "Write" }]

/-- The first of these calls comes again after the other one. -/
def calledAgain : FileModel where
  path := ⟨"B.cs"⟩
  nodes :=
    [{ kind := .block, children := [1] }, { kind := .ifStatement, children := [2, 4, 5] },
      { kind := .invocation, text := "Load(x + 1)", children := [3] },
      { kind := .binaryExpression, text := "x + 1" }, { kind := .invocation, text := "Write()" },
      { kind := .invocation, text := "Load(x + 1)", children := [6] },
      { kind := .binaryExpression, text := "x + 1" }]
  calls :=
    [{ node := 2, target := .user "Load" },
      { node := 4, target := .external "System" "Console" "Write" },
      { node := 5, target := .user "Load" }]

theorem load_calledOnce : calledOnce.load = .ok calledOnce.loaded :=
  FileModel.load_eq_ok_iff.2 ⟨by decide, rfl⟩

theorem load_calledAgain : calledAgain.load = .ok calledAgain.loaded :=
  FileModel.load_eq_ok_iff.2 ⟨by decide, rfl⟩

theorem subtree_calledOnce : calledOnce.loaded.tree.subtree 0 = {0, 1, 2, 3, 4} := by
  have h : calledOnce.loaded.tree.descendants 0 = [1, 2, 3, 4] := by decide +kernel
  ext x
  simp [(FileModel.linked_of_load load_calledOnce).mem_subtree, h]

theorem subtree_calledOnce_call : calledOnce.loaded.tree.subtree 2 = {2, 3} := by
  have h : calledOnce.loaded.tree.descendants 2 = [3] := by decide +kernel
  ext x
  simp [(FileModel.linked_of_load load_calledOnce).mem_subtree, h]

theorem subtree_calledAgain_call : calledAgain.loaded.tree.subtree 5 = {5, 6} := by
  have h : calledAgain.loaded.tree.descendants 5 = [6] := by decide +kernel
  ext x
  simp [(FileModel.linked_of_load load_calledAgain).mem_subtree, h]

theorem renumbers_calledAgain : calledOnce.loaded.Renumbers calledAgain.loaded (· + 3) 2 5 where
  bijective := by
    rw [subtree_calledOnce_call, subtree_calledAgain_call]
    refine ⟨?_, ?_, ?_⟩
    · rintro x (rfl | rfl) <;> decide
    · rintro x (rfl | rfl) y (rfl | rfl) <;> decide
    · rintro y (rfl | rfl)
      · exact ⟨2, by simp, rfl⟩
      · exact ⟨3, by simp, rfl⟩
  root := rfl
  kind := by
    rw [subtree_calledOnce_call]
    rintro x (rfl | rfl) <;> decide
  text := by
    rw [subtree_calledOnce_call]
    rintro x (rfl | rfl) <;> decide
  children := by
    rw [subtree_calledOnce_call]
    rintro x (rfl | rfl) <;> decide
  target := by
    rw [subtree_calledOnce_call]
    intro x hx _
    rw [(FileModel.represents_of_load load_calledAgain).target,
      (FileModel.represents_of_load load_calledOnce).target]
    obtain rfl | rfl := hx <;> decide

theorem repeats_calledAgain : calledOnce.loaded.Repeats calledAgain.loaded id (· + 3) 0 0 1 2 where
  root := rfl
  inside := by
    rw [subtree_calledOnce]
    simp
  kind := by
    rw [subtree_calledOnce]
    rintro x (rfl | rfl | rfl | rfl | rfl) <;> decide
  text := by
    rw [subtree_calledOnce]
    rintro x (rfl | rfl | rfl | rfl | rfl) <;> decide
  target := by
    rw [subtree_calledOnce]
    intro x hx _
    rw [(FileModel.represents_of_load load_calledAgain).target,
      (FileModel.represents_of_load load_calledOnce).target]
    obtain rfl | rfl | rfl | rfl | rfl := hx <;> decide
  children := by
    rw [subtree_calledOnce]
    rintro x (rfl | rfl | rfl | rfl | rfl) <;> decide
  inserted := ⟨[], [4], [], by decide, by decide⟩
  copied := renumbers_calledAgain

theorem repetition_adds_nothing_called_again :
    calledOnce.load = .ok calledOnce.loaded ∧ calledAgain.load = .ok calledAgain.loaded ∧
    calledOnce.loaded.Repeats calledAgain.loaded id (· + 3) 0 0 1 2 ∧
    (∀ caller, ∃ e, (calledOnce.loaded.evidence .empty caller 0 .unlimited).1 = some e ∧
      (calledAgain.loaded.evidence .empty caller 0 .unlimited).1 = some e) ∧
    (calledAgain.loaded.judge .empty { name := "Run", body := some 0 } .unlimited).1 =
      (calledOnce.loaded.judge .empty { name := "Run", body := some 0 } .unlimited).1.placedAt ""
        (calledAgain.loaded.locationOf { name := "Run", body := some 0 } 0) :=
  ⟨load_calledOnce, load_calledAgain, repeats_calledAgain,
    repetition_adds_nothing (p := { name := "Run", body := some 0 })
      (q := { name := "Run", body := some 0 }) load_calledOnce load_calledAgain rfl rfl rfl rfl
      repeats_calledAgain .empty⟩

end SourceFile

end MethodRoles
