import MethodRoles.Proofs.Tree.Descendants
import MethodRoles.Syntax.Search

/-!
# What searches yield

A search is a machine with nodes to visit and matches to hand out. What it has still to yield is
said by recursion on the tree; one step hands out the head of that and leaves the rest, so that a
whole run yields all of it. A search everywhere yields the matches in the listing of all nodes below
the root. A search for the shallowest matches yields some of them, and some at all if there are any.
-/
namespace MethodRoles

namespace Tree

/-- The matching children of a node if there are any, else those found below its children. -/
def outermost (t : Tree) (p : Nat → Bool) (id : Nat) : List Nat :=
  match (t.below id).filter p with
  | [] => (t.below id).attach.flatMap fun c => t.outermost p c.1
  | found => found
termination_by t.size - id
decreasing_by have := mem_below c.2; omega

theorem outermost_eq (t : Tree) (p : Nat → Bool) (id : Nat) :
    t.outermost p id =
      match (t.below id).filter p with
      | [] => (t.below id).flatMap (t.outermost p)
      | found => found := by
  rw [outermost]
  split <;> simp

theorem outermost_of_ne_nil {t : Tree} {p : Nat → Bool} {id : Nat}
    (h : (t.below id).filter p ≠ []) :
    t.outermost p id = (t.below id).filter p := by
  rw [outermost_eq]
  split
  · next hm => exact absurd hm h
  · rfl

/-- Nodes in the order in which they are visited, from pending ones on. -/
def walk (t : Tree) (pending : List Nat) : List Nat :=
  pending.flatMap fun id => id :: t.descendants id

theorem walk_cons (t : Tree) (id : Nat) (pending : List Nat) :
    t.walk (id :: pending) = id :: t.walk (t.below id ++ pending) := by
  simp [walk, descendants_eq t id]

/-! ## One step -/

/-- A visit gives the first match that is to come. -/
theorem visit_fst (t : Tree) (p : Nat → Bool) (pending : List Nat) :
    (t.visit p pending).1 = ((t.walk pending).filter p).head? := by
  fun_induction visit t p pending with
  | case1 => rfl
  | case2 id pending hp => rw [walk_cons, List.filter_cons_of_pos hp, List.head?_cons]
  | case3 id pending hp ih => rw [walk_cons, List.filter_cons_of_neg hp, ih]

/-- The other matches are still to come after a visit. -/
theorem filter_walk_visit (t : Tree) (p : Nat → Bool) (pending : List Nat) :
    (t.walk (t.visit p pending).2).filter p = ((t.walk pending).filter p).tail := by
  fun_induction visit t p pending with
  | case1 => rfl
  | case2 id pending hp => rw [walk_cons, List.filter_cons_of_pos hp, List.tail_cons]
  | case3 id pending hp ih => rw [walk_cons, List.filter_cons_of_neg hp, ih]

theorem flatMap_outermost (t : Tree) (p : Nat → Bool) (pending : List Nat) :
    pending.flatMap (t.outermost p) =
      (t.expand p pending).1 ++ (t.expand p pending).2.flatMap (t.outermost p) := by
  fun_induction expand t p pending with
  | case1 => rfl
  | case2 id pending hm ih =>
    rw [List.flatMap_cons, outermost_eq, hm, ← ih, List.flatMap_append]
  | case3 id pending hm => rw [List.flatMap_cons, outermost_of_ne_nil hm]

/-- Only when nothing is pending any more is nothing found. -/
theorem expand_snd_eq_nil (t : Tree) (p : Nat → Bool) (pending : List Nat)
    (h : (t.expand p pending).1 = []) : (t.expand p pending).2 = [] := by
  fun_induction expand t p pending with
  | case1 => rfl
  | case2 id pending hm ih => exact ih h
  | case3 id pending hm => exact absurd h hm

end Tree

namespace Search

/-- The matches that a search has still to yield. -/
def yields (s : Search) : List Nat :=
  s.ready ++ match s.mode with
    | .everywhere => (s.tree.walk s.pending).filter s.matching
    | .shallowest => s.pending.flatMap (s.tree.outermost s.matching)

/-- A step hands out the first of the matches that are to come, and leaves the others. -/
theorem next_yields (s : Search) : s.next.1 = s.yields.head? ∧ s.next.2.yields = s.yields.tail := by
  rw [next.eq_def]
  cases hr : s.ready with
  | cons id ready => simp [yields, hr]
  | nil =>
    cases hm : s.mode with
    | everywhere =>
      simp only [yields, hr, hm, List.nil_append]
      exact ⟨s.tree.visit_fst s.matching s.pending, s.tree.filter_walk_visit s.matching s.pending⟩
    | shallowest =>
      have hw := s.tree.flatMap_outermost s.matching s.pending
      cases he : s.tree.expand s.matching s.pending with
      | mk found rest =>
        rw [he] at hw
        cases found with
        | cons id ready => simp [yields, hr, hm, hw]
        | nil =>
          have hrest : rest = [] := by
            simpa [he] using s.tree.expand_snd_eq_nil s.matching s.pending
          simp [yields, hr, hm, hw, hrest]

/-! ## Whole searches -/

theorem toList_eq_yields (s : Search) : s.toList = s.yields := by
  fun_induction toList s with
  | case1 s rest h =>
    have hhead := s.next_yields.1
    rw [h] at hhead
    exact (List.head?_eq_none_iff.1 hhead.symm).symm
  | case2 s id rest h ih =>
    obtain ⟨hhead, htail⟩ := s.next_yields
    rw [h] at hhead htail
    rw [ih, htail]
    exact List.cons_head?_tail hhead.symm

end Search

namespace Tree

theorem find_everywhere (t : Tree) (root : Nat) (p : Nat → Bool) :
    t.find root .everywhere p = (t.descendants root).filter p := by
  rw [find, Search.toList_eq_yields, descendants_eq]
  rfl

theorem Linked.mem_find_everywhere {t : Tree} (h : t.Linked) {root x : Nat} {p : Nat → Bool} :
    x ∈ t.find root .everywhere p ↔ Relation.TransGen t.Lists root x ∧ p x = true := by
  rw [find_everywhere, List.mem_filter, h.mem_descendants]

theorem Linked.nodup_find_everywhere {t : Tree} (h : t.Linked) (root : Nat) (p : Nat → Bool) :
    (t.find root .everywhere p).Nodup := by
  rw [find_everywhere]
  exact (h.nodup_descendants root).filter p

theorem find_shallowest (t : Tree) (root : Nat) (p : Nat → Bool) :
    t.find root .shallowest p = t.outermost p root := by
  rw [find, Search.toList_eq_yields]
  simp [Search.yields, Search.start]

/-- Only matches below the root are found. -/
theorem mem_of_mem_outermost {t : Tree} {p : Nat → Bool} {root x : Nat}
    (h : x ∈ t.outermost p root) :
    x ∈ t.descendants root ∧ p x = true := by
  fun_induction outermost t p root with
  | case1 root hm ih =>
    obtain ⟨c, -, hx⟩ := List.mem_flatMap.1 h
    obtain ⟨hbelow, hp⟩ := ih c hx
    rw [descendants_eq]
    exact ⟨List.mem_flatMap.2 ⟨c.1, c.2, List.mem_cons_of_mem _ hbelow⟩, hp⟩
  | case2 root hm =>
    obtain ⟨hc, hp⟩ := List.mem_filter.1 h
    rw [descendants_eq]
    exact ⟨List.mem_flatMap.2 ⟨x, hc, by simp⟩, hp⟩

/-- A search for the shallowest matches passes over some matches, but never over all of them. -/
theorem outermost_eq_nil_iff (t : Tree) (p : Nat → Bool) (root : Nat) :
    t.outermost p root = [] ↔ ∀ x ∈ t.descendants root, p x = false := by
  fun_induction outermost t p root with
  | case1 root hm ih =>
    rw [List.flatMap_eq_nil_iff, descendants_eq]
    constructor
    · intro h x hx
      obtain ⟨c, hc, hx⟩ := List.mem_flatMap.1 hx
      rcases List.mem_cons.1 hx with rfl | hx
      · simpa using List.filter_eq_nil_iff.1 hm x hc
      · exact (ih ⟨c, hc⟩).1 (h ⟨c, hc⟩ (List.mem_attach _ _)) x hx
    · intro h c _
      refine (ih c).2 fun x hx => h x ?_
      exact List.mem_flatMap.2 ⟨c.1, c.2, List.mem_cons_of_mem _ hx⟩
  | case2 root hm =>
    -- a child matches, and children are below the root
    refine iff_of_false hm fun h => hm ?_
    rw [List.filter_eq_nil_iff]
    intro c hc
    have := h c (by rw [descendants_eq]; exact List.mem_flatMap.2 ⟨c, hc, by simp⟩)
    simp [this]

end Tree

end MethodRoles
