import Mathlib.Logic.Relation
import MethodRoles.Proofs.Tree.Links

/-!
# Nodes below a node

The nodes below a node are those that are reached from it through child lists. In a tree that has
been built, each of them stands once in the listing that goes down in the order of the text.
-/
namespace MethodRoles

namespace Tree

/-- `p` lists `c` as a child. -/
def Lists (t : Tree) (p c : Nat) : Prop := c ∈ t.children p

/-- All nodes below a node, each before those below itself. -/
def descendants (t : Tree) (id : Nat) : List Nat :=
  (t.below id).attach.flatMap fun c => c.1 :: t.descendants c.1
termination_by t.size - id
decreasing_by have := mem_below c.2; omega

theorem descendants_eq (t : Tree) (id : Nat) :
    t.descendants id = (t.below id).flatMap fun c => c :: t.descendants c := by
  rw [descendants]
  simp

namespace Linked

variable {t : Tree}

/-- The condition that makes every descent end leaves no child out. -/
theorem below_eq (h : t.Linked) (id : Nat) : t.below id = t.children id := by
  rw [below, List.filter_eq_self]
  intro c hc
  simp [h.forward hc]

theorem lt_of_lists (h : t.Linked) {p c : Nat} (hl : t.Lists p c) : p < c := (h.forward hl).1

theorem lt_of_transGen (h : t.Linked) {root x : Nat} (hx : Relation.TransGen t.Lists root x) :
    root < x := by
  induction hx with
  | single hl => exact h.lt_of_lists hl
  | tail _ hl ih => exact Nat.lt_trans ih (h.lt_of_lists hl)

theorem mem_descendants (h : t.Linked) {root x : Nat} :
    x ∈ t.descendants root ↔ Relation.TransGen t.Lists root x := by
  constructor
  · intro hx
    fun_induction descendants t root with
    | case1 root ih =>
      rw [List.mem_flatMap] at hx
      obtain ⟨c, -, hx⟩ := hx
      have hl : t.Lists root c.1 := by
        rw [Lists, ← h.below_eq]
        exact c.2
      rcases List.mem_cons.1 hx with rfl | hx
      · exact .single hl
      · exact .head hl (ih c hx)
  · intro hx
    induction hx using Relation.TransGen.head_induction_on with
    | single hl =>
      rw [descendants_eq, List.mem_flatMap]
      exact ⟨x, by rwa [h.below_eq], by simp⟩
    | head hl _ ih =>
      rw [descendants_eq, List.mem_flatMap]
      exact ⟨_, by rwa [h.below_eq], by simp [ih]⟩

/-- Two nodes above a common node are above one another, as a node has one parent. -/
theorem comparable (h : t.Linked) {a b x : Nat} (ha : Relation.ReflTransGen t.Lists a x)
    (hb : Relation.ReflTransGen t.Lists b x) :
    Relation.ReflTransGen t.Lists a b ∨ Relation.ReflTransGen t.Lists b a := by
  have hunique : Relator.RightUnique (Function.swap t.Lists) := by
    intro c p q hp hq
    have hp : t.parent? c = some p := h.agree.2 hp
    rw [h.agree.2 hq] at hp
    cases hp
    rfl
  rcases Relation.ReflTransGen.total_of_right_unique hunique (Relation.reflTransGen_swap.2 ha)
    (Relation.reflTransGen_swap.2 hb) with hba | hab
  · exact .inr (Relation.reflTransGen_swap.1 hba)
  · exact .inl (Relation.reflTransGen_swap.1 hab)

/-- Nothing lies between a node and its child. -/
theorem not_between (h : t.Linked) {root a x : Nat} (hx : t.Lists root x)
    (ha : Relation.TransGen t.Lists root a) : ¬ Relation.TransGen t.Lists a x := by
  intro hax
  obtain ⟨y, hay, hyx⟩ := Relation.TransGen.tail'_iff.1 hax
  -- the parent of `x` is the root, which `a` comes after
  have hy : t.parent? x = some y := h.agree.2 hyx
  rw [h.agree.2 hx] at hy
  cases hy
  have hlt := h.lt_of_transGen ha
  rcases Relation.reflTransGen_iff_eq_or_transGen.1 hay with he | hlt'
  · omega
  · have := h.lt_of_transGen hlt'
    omega

/-- Nothing lies below two children of one node. -/
theorem siblings_apart (h : t.Linked) {p a b x : Nat} (ha : t.Lists p a) (hb : t.Lists p b)
    (hax : Relation.ReflTransGen t.Lists a x) (hbx : Relation.ReflTransGen t.Lists b x) :
    a = b := by
  rcases h.comparable hax hbx with hab | hba
  · rcases Relation.reflTransGen_iff_eq_or_transGen.1 hab with he | hab
    · exact he.symm
    · exact absurd hab (h.not_between hb (.single ha))
  · rcases Relation.reflTransGen_iff_eq_or_transGen.1 hba with he | hba
    · exact he
    · exact absurd hba (h.not_between ha (.single hb))

theorem nodup_descendants (h : t.Linked) (root : Nat) : (t.descendants root).Nodup := by
  fun_induction descendants t root with
  | case1 root ih =>
    have hl : ∀ c : { c // c ∈ t.below root }, t.Lists root c.1 := by
      intro c
      rw [Lists, ← h.below_eq]
      exact c.2
    have hreach : ∀ {c x}, x ∈ c :: t.descendants c → Relation.ReflTransGen t.Lists c x := by
      intro c x hx
      rcases List.mem_cons.1 hx with rfl | hx
      · exact .refl
      · exact (h.mem_descendants.1 hx).to_reflTransGen
    rw [List.nodup_flatMap]
    constructor
    · intro c _
      rw [List.nodup_cons]
      refine ⟨?_, ih c⟩
      intro hc
      have := h.lt_of_transGen (h.mem_descendants.1 hc)
      omega
    · have hnodup : (t.below root).attach.Nodup := by
        rw [List.nodup_attach, h.below_eq]
        exact h.distinct root
      refine hnodup.imp ?_
      intro a b hne x ha hb
      exact hne (Subtype.ext (h.siblings_apart (hl a) (hl b) (hreach ha) (hreach hb)))

end Linked

end Tree

end MethodRoles
