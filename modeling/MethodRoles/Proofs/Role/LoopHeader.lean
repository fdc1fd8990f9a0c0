import MethodRoles.Proofs.Role.Classification
import MethodRoles.Proofs.Role.Verdict

/-!
# Headers of `for` loops

A binary expression does not count if a `for` loop lists it as a part of its header. The search goes
on below such an expression, and what it finds there has another parent. So a header is exempt as a
whole exactly if nothing computes below its control expressions, and a method all of whose binary
expressions stand in headers may be reported all the same.
-/
namespace MethodRoles

namespace FileModel

/-- `c` is a binary expression in the header of a `for` loop, and not a part of another one
there. -/
def ControlOf (m : FileModel) (loop c : Nat) : Prop :=
  m.kindAt? loop = some .forLoop ∧ m.Lists loop c ∧ m.kindAt? c = some .binaryExpression

def IsControl (m : FileModel) (x : Nat) : Prop := ∃ loop, m.ControlOf loop x

/-- `x` is a control expression of the loop or lies below one. -/
def InHeaderOf (m : FileModel) (loop x : Nat) : Prop :=
  ∃ c, m.ControlOf loop c ∧ Relation.ReflTransGen m.Lists c x

theorem not_isControl_iff {m : FileModel} {x : Nat} (hx : m.kindAt? x = some .binaryExpression) :
    ¬ m.IsControl x ↔ ∀ p, m.Lists p x → m.kindAt? p ≠ some .forLoop := by
  constructor
  · intro h p hp hk
    exact h ⟨p, hk, hp, hx⟩
  · rintro h ⟨p, hk, hp, -⟩
    exact h p hp hk

theorem computes_iff {m : FileModel} {body : Nat} :
    m.Computes body ↔ ∃ x, Relation.TransGen m.Lists body x ∧ m.kindAt? x = some .binaryExpression ∧
      ¬ m.IsControl x :=
  exists_congr fun _ => and_congr_right fun _ => and_congr_right fun hx =>
    (not_isControl_iff hx).symm

end FileModel

namespace SourceFile

variable {m : FileModel} {f : SourceFile}

theorem isComputed_iff_not_isControl (h : f.Represents m) {x : Nat} :
    f.tree.isComputed x = true ↔ m.kindAt? x = some .binaryExpression ∧ ¬ m.IsControl x := by
  rw [isComputed_iff h]
  exact and_congr_right fun hx => (FileModel.not_isControl_iff hx).symm

theorem of_mem_find_shallowest (h : f.Represents m) (hl : f.tree.Linked) {body x : Nat}
    (hx : x ∈ f.tree.find body .shallowest f.tree.isComputed) :
    Relation.TransGen m.Lists body x ∧ m.kindAt? x = some .binaryExpression ∧ ¬ m.IsControl x := by
  rw [Tree.find_shallowest] at hx
  obtain ⟨hbelow, hc⟩ := Tree.mem_of_mem_outermost hx
  rw [hl.mem_descendants, h.lists] at hbelow
  exact ⟨hbelow, (isComputed_iff_not_isControl h).1 hc⟩

/-- No part of a header computes, so that the search goes on below all parts of a loop. -/
theorem find_shallowest_loop (h : f.Represents m) (hl : f.tree.Linked) {loop : Nat}
    (hloop : m.kindAt? loop = some .forLoop) :
    f.tree.find loop .shallowest f.tree.isComputed =
      (m.childrenAt loop).flatMap fun c => f.tree.find c .shallowest f.tree.isComputed := by
  have hnone : (m.childrenAt loop).any f.tree.isComputed = false := by
    rw [List.any_eq_false]
    intro c hc hcomputed
    obtain ⟨hk, hn⟩ := (isComputed_iff_not_isControl h).1 hcomputed
    exact hn ⟨loop, hloop, hc, hk⟩
  simp only [Tree.find_shallowest]
  rw [hl.outermost_eq, h.children, hnone]
  rfl

/-- A header is exempt as a whole exactly if nothing computes below its control expressions. -/
theorem header_exempt_iff (h : f.Represents m) (hl : f.tree.Linked) {loop : Nat}
    (hloop : m.kindAt? loop = some .forLoop) :
    (∀ x ∈ f.tree.find loop .shallowest f.tree.isComputed, ¬ m.InHeaderOf loop x) ↔
      ∀ c, m.ControlOf loop c → ¬ m.Computes c := by
  constructor
  · intro hexempt c hc hcomputes
    have hfound : f.tree.find c .shallowest f.tree.isComputed ≠ [] := by
      intro hnil
      rw [← not_not (a := m.Computes c), ← expressions_eq_nil_iff h hl, expressions,
        hnil] at hcomputes
      exact hcomputes rfl
    obtain ⟨x, hx⟩ := List.exists_mem_of_ne_nil _ hfound
    have hbelow := (of_mem_find_shallowest h hl hx).1
    refine hexempt x ?_ ⟨c, hc, hbelow.to_reflTransGen⟩
    rw [find_shallowest_loop h hl hloop]
    exact List.mem_flatMap.2 ⟨c, hc.2.1, hx⟩
  · rintro hflat x hx ⟨c, hc, hcx⟩
    obtain ⟨-, hk, hn⟩ := of_mem_find_shallowest h hl hx
    rcases Relation.reflTransGen_iff_eq_or_transGen.1 hcx with rfl | hbelow
    · exact hn ⟨loop, hc⟩
    · exact hflat c hc (FileModel.computes_iff.2 ⟨x, hbelow, hk, hn⟩)

theorem outcomeOf_eq_clean_iff (h : f.Represents m) (hl : f.tree.Linked) (table : ExclusionTable)
    (method : Method) (body : Nat) :
    f.outcomeOf table method body = .clean ↔ ¬ m.MixesRoles table method.name body := by
  rw [outcomeOf, ← isViolation_iff h hl]
  split
  · next hv => simp [hv]
  · next hv => simp [hv]

end SourceFile

namespace FileModel

/-- A control expression of a `for` loop is never recorded. What lies below the control expressions
of a loop is, so that the header is exempt as a whole exactly if nothing computes there. A method
that calls nothing that operates is clean exactly if it calls nothing that integrates either or all
of its binary expressions are control expressions. -/
theorem loop_header_exempt {m : FileModel} {f : SourceFile} (h : m.load = .ok f) :
    (∀ body, ∀ x ∈ f.tree.find body .shallowest f.tree.isComputed, ¬ m.IsControl x) ∧
    (∀ loop, m.kindAt? loop = some .forLoop →
      ((∀ x ∈ f.tree.find loop .shallowest f.tree.isComputed, ¬ m.InHeaderOf loop x) ↔
        ∀ c, m.ControlOf loop c → ¬ m.Computes c)) ∧
    (∀ table method body, f.Admits method body → ¬ m.Operates table method.name body →
      ((f.judge table method .unlimited).1 = .clean ↔
        ¬ m.Integrates table method.name body ∨
          ∀ x, Relation.TransGen m.Lists body x → m.kindAt? x = some .binaryExpression →
            m.IsControl x)) := by
  have hrep := represents_of_load h
  have hl := linked_of_load h
  refine ⟨?_, fun loop => SourceFile.header_exempt_iff hrep hl, ?_⟩
  · intro body x hx
    exact (SourceFile.of_mem_find_shallowest hrep hl hx).2.2
  · intro table method body hadmits hoperates
    have hcomputes : ¬ m.Computes body ↔ ∀ x, Relation.TransGen m.Lists body x →
        m.kindAt? x = some .binaryExpression → m.IsControl x := by
      simp [computes_iff]
    rw [SourceFile.judge_of_admits hadmits, SourceFile.outcomeOf_eq_clean_iff hrep hl, ← hcomputes,
      MixesRoles]
    simp only [hoperates, false_or]
    exact not_and_or

/-! ## Two headers -/

theorem mem_descendants_iff {m : FileModel} {f : SourceFile} (h : m.load = .ok f) {root x : Nat} :
    x ∈ f.tree.descendants root ↔ Relation.TransGen m.Lists root x := by
  rw [(linked_of_load h).mem_descendants, (represents_of_load h).lists]

/-- `for (; i < 10;) { Step(i); }` -/
def flatHeader : FileModel where
  path := ⟨"A.cs"⟩
  nodes :=
    [{ kind := .block, children := [1] },
      { kind := .forLoop, text := "for (; i < 10;)", children := [2, 3] },
      { kind := .binaryExpression, text := "i < 10" }, { kind := .block, children := [4] },
      { kind := .invocation, text := "Step(i)" }]
  methods := [{ name := "Run", body := some 0 }]
  calls := [{ node := 4, target := .user "Step" }]

theorem loop_header_exempt_flat :
    flatHeader.load = .ok flatHeader.loaded ∧ flatHeader.Integrates .defaults "Run" 0 ∧
    (flatHeader.loaded.judge .defaults { name := "Run", body := some 0 } .unlimited).1 =
      .clean := by
  have hload : flatHeader.load = .ok flatHeader.loaded := load_eq_ok_iff.2 ⟨by decide, rfl⟩
  have hbelow : ∀ {x}, Relation.TransGen flatHeader.Lists 0 x → x ∈ [1, 2, 3, 4] := by
    intro x hx
    have hd : flatHeader.loaded.tree.descendants 0 = [1, 2, 3, 4] := by decide +kernel
    rwa [← hd, mem_descendants_iff hload]
  have hbinary : ∀ x ∈ [1, 2, 3, 4], flatHeader.kindAt? x = some .binaryExpression → x = 2 := by
    decide
  have hinvocation : ∀ x ∈ [1, 2, 3, 4], flatHeader.kindAt? x = some .invocation → x = 4 := by
    decide
  have hcall : Relation.TransGen flatHeader.Lists 0 4 :=
    .tail (.tail (.single (show flatHeader.Lists 0 1 by decide))
      (show flatHeader.Lists 1 3 by decide))
      (by decide)
  have hoperates : ¬ flatHeader.Operates .defaults "Run" 0 := by
    rintro ⟨t, name, ⟨x, hx, hk, ht⟩, hr⟩
    obtain rfl := hinvocation x (hbelow hx) hk
    obtain rfl : Target.user "Step" = t := Option.some.inj ht
    cases hr
  obtain ⟨-, -, hclean⟩ := loop_header_exempt hload
  refine ⟨hload, ⟨.user "Step", "Step", ⟨4, hcall, by decide, by decide⟩, rfl⟩, ?_⟩
  refine (hclean .defaults { name := "Run", body := some 0 } 0
    ⟨by decide, rfl, by decide, by decide⟩
    hoperates).2 (.inr fun x hx hk => ?_)
  obtain rfl := hbinary x (hbelow hx) hk
  exact ⟨1, by decide, by decide, by decide⟩

/-- `for (; x + 1 == 42;) { Step(); }` -/
def compoundHeader : FileModel where
  path := ⟨"A.cs"⟩
  nodes :=
    [{ kind := .block, children := [1] },
      { kind := .forLoop, text := "for (; x + 1 == 42;)", children := [2, 4] },
      { kind := .binaryExpression, text := "x + 1 == 42", children := [3] },
      { kind := .binaryExpression, text := "x + 1" }, { kind := .block, children := [5] },
      { kind := .invocation, text := "Step()" }]
  methods := [{ name := "Run", body := some 0 }]
  calls := [{ node := 5, target := .user "Step" }]

theorem load_compoundHeader : compoundHeader.load = .ok compoundHeader.loaded :=
  load_eq_ok_iff.2 ⟨by decide, rfl⟩

theorem mixesRoles_compoundHeader : compoundHeader.MixesRoles .defaults "Run" 0 := by
  have hloop : Relation.TransGen compoundHeader.Lists 0 1 := .single (by decide)
  have hparent : ∀ p < 3, compoundHeader.Lists p 3 → compoundHeader.kindAt? p ≠ some .forLoop := by
    decide
  refine ⟨⟨.user "Step", "Step", ⟨5, ?_, by decide, by decide⟩, rfl⟩, .inr ⟨3, ?_, by decide, ?_⟩⟩
  · exact (hloop.tail (show compoundHeader.Lists 1 4 by decide)).tail (by decide)
  · exact (hloop.tail (show compoundHeader.Lists 1 2 by decide)).tail (by decide)
  · intro p hp
    have hvalid := faults_eq_nil.1 (load_eq_ok_iff.1 load_compoundHeader).1
    exact hparent p (hvalid.forward p 3 hp).1 hp

/-- All binary expressions stand in the header and all calls integrate, but a part of the condition
is recorded. -/
theorem compound_header_is_reported :
    compoundHeader.load = .ok compoundHeader.loaded ∧
    compoundHeader.loaded.Admits { name := "Run", body := some 0 } 0 ∧
    (∀ x, Relation.TransGen compoundHeader.Lists 0 x →
      compoundHeader.kindAt? x = some .binaryExpression → compoundHeader.InHeaderOf 1 x) ∧
    ¬ compoundHeader.Operates .defaults "Run" 0 ∧
    ∃ d, (compoundHeader.loaded.judge .defaults { name := "Run", body := some 0 } .unlimited).1 =
      .violation d ∧ d.expressions = ["x + 1"] := by
  have hadmits : compoundHeader.loaded.Admits { name := "Run", body := some 0 } 0 :=
    ⟨by decide, rfl, by decide, by decide⟩
  have hcontrol : compoundHeader.ControlOf 1 2 := ⟨by decide, by decide, by decide⟩
  have hbelow : ∀ {x}, Relation.TransGen compoundHeader.Lists 0 x → x ∈ [1, 2, 3, 4, 5] := by
    intro x hx
    have hd : compoundHeader.loaded.tree.descendants 0 = [1, 2, 3, 4, 5] := by decide +kernel
    rwa [← hd, mem_descendants_iff load_compoundHeader]
  have hbinary : ∀ x ∈ [1, 2, 3, 4, 5], compoundHeader.kindAt? x = some .binaryExpression →
      x = 2 ∨ x = 3 := by decide
  have hinvocation : ∀ x ∈ [1, 2, 3, 4, 5], compoundHeader.kindAt? x = some .invocation →
      x = 5 := by
    decide
  refine ⟨load_compoundHeader, hadmits, ?_, ?_, ?_⟩
  · intro x hx hk
    rcases hbinary x (hbelow hx) hk with rfl | rfl
    · exact ⟨2, hcontrol, .refl⟩
    · exact ⟨2, hcontrol, .single (by decide)⟩
  · rintro ⟨t, name, ⟨x, hx, hk, ht⟩, hr⟩
    obtain rfl := hinvocation x (hbelow hx) hk
    obtain rfl : Target.user "Step" = t := Option.some.inj ht
    cases hr
  · have hviolation := (SourceFile.isViolation_iff (represents_of_load load_compoundHeader)
      (linked_of_load load_compoundHeader) .defaults "Run" 0).2 mixesRoles_compoundHeader
    have hexpressions : compoundHeader.loaded.expressions 0 = ["x + 1"] := by
      rw [SourceFile.expressions, Tree.find_shallowest]
      decide +kernel
    refine ⟨_, by rw [SourceFile.judge_of_admits hadmits, SourceFile.outcomeOf, if_pos hviolation],
      ?_⟩
    simp only [Diagnostic.ofEvidence, SourceFile.fullEvidence, hexpressions, Seen.toList_ofList]
    rfl

end FileModel

end MethodRoles
