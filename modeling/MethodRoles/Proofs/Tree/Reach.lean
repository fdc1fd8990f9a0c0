import Mathlib.Data.List.Flatten
import MethodRoles.Proofs.Tree.Search

/-!
# What searches reach

A search is asked for one match after the other, and may be asked again when it has none left. In a
tree that has been built, a search everywhere answers with the matches from which climbing up leads
to the root. A search for the shallowest matches answers with those that have no match beside or
among the nodes between the root and themselves. They are some of the matches everywhere, in the
same order, and one of them is near every match.
-/
namespace MethodRoles

namespace Search

/-! ## Asking again and again -/

/-- The search after it has been asked `n` times. -/
def after (s : Search) : Nat → Search
  | 0 => s
  | n + 1 => s.next.2.after n

/-- What a search answers when it has been asked `n` times before. -/
def answer (s : Search) (n : Nat) : Option Nat := (s.after n).next.1

theorem yields_after (s : Search) (n : Nat) : (s.after n).yields = s.yields.drop n := by
  induction n generalizing s with
  | zero => rfl
  | succ n ih => rw [after, ih, s.next_yields.2, List.drop_tail]

/-- The answers are the matches in order, and nothing from then on. -/
theorem answer_eq (s : Search) (n : Nat) : s.answer n = s.toList[n]? := by
  rw [answer, (s.after n).next_yields.1, yields_after, List.head?_drop, toList_eq_yields]

theorem answer_eq_none_of_le {s : Search} {n m : Nat} (hle : n ≤ m) (h : s.answer n = none) :
    s.answer m = none := by
  rw [answer_eq, List.getElem?_eq_none_iff] at h ⊢
  omega

end Search

namespace Tree

/-- The shallowest matches come in the order in which all nodes below the root are listed. -/
theorem outermost_sublist (t : Tree) (p : Nat → Bool) (root : Nat) :
    (t.outermost p root).Sublist (t.descendants root) := by
  fun_induction outermost t p root with
  | case1 root hm ih =>
    rw [descendants]
    exact List.Sublist.flatMap_right _ fun c _ => (ih c).cons c.1
  | case2 root hm =>
    have hchildren : (t.below root).Sublist (t.descendants root) := by
      rw [descendants_eq]
      nth_rewrite 1 [← List.flatMap_singleton' (t.below root)]
      exact List.Sublist.flatMap_right _ fun c _ => by simp
    exact List.filter_sublist.trans hchildren

theorem filter_outermost (t : Tree) (p : Nat → Bool) (root : Nat) :
    (t.outermost p root).filter p = t.outermost p root :=
  List.filter_eq_self.2 fun _ hx => (mem_of_mem_outermost hx).2

/-- No child of the parent of `a` matches: neither `a` nor a sibling of it. -/
def Unmatched (t : Tree) (p : Nat → Bool) (a : Nat) : Prop :=
  ∀ q, t.parent? a = some q → ∀ b ∈ t.children q, p b = false

namespace Linked

variable {t : Tree}

/-! ## Climbing up -/

theorem reflTransGen_of_climb (h : t.Linked) {n x root : Nat} (hc : t.climb n x = some root) :
    Relation.ReflTransGen t.Lists root x := by
  induction n generalizing x with
  | zero =>
    cases hc
    exact .refl
  | succ n ih =>
    obtain ⟨y, hy, hc⟩ := Option.bind_eq_some_iff.1 hc
    exact (ih hc).tail (h.agree.1 hy)

/-- Climbing up from a node leads to exactly those nodes that it is below of. -/
theorem climb_iff (h : t.Linked) {x root : Nat} :
    (∃ n, t.climb (n + 1) x = some root) ↔ Relation.TransGen t.Lists root x := by
  constructor
  · rintro ⟨n, hc⟩
    obtain ⟨y, hy, hc⟩ := Option.bind_eq_some_iff.1 hc
    exact .tail' (h.reflTransGen_of_climb hc) (h.agree.1 hy)
  · intro hx
    induction hx with
    | single hl => exact ⟨0, by simp [climb, h.agree.2 hl]⟩
    | tail _ hl ih =>
      obtain ⟨n, hc⟩ := ih
      exact ⟨n + 1, by rw [climb, h.agree.2 hl, Option.bind_some, hc]⟩

/-! ## The shallowest matches -/

/-- A node between the root and one that is below the child `c` is `c` itself or below it. -/
theorem eq_or_below (h : t.Linked) {root c a x : Nat} (hc : t.Lists root c)
    (hcx : Relation.TransGen t.Lists c x) (ha : Relation.TransGen t.Lists root a)
    (hax : Relation.TransGen t.Lists a x) : a = c ∨ Relation.TransGen t.Lists c a := by
  obtain ⟨d, hd, hda⟩ := Relation.TransGen.head'_iff.1 ha
  obtain rfl : d = c :=
    h.siblings_apart hd hc (hda.trans hax.to_reflTransGen) hcx.to_reflTransGen
  rcases Relation.reflTransGen_iff_eq_or_transGen.1 hda with he | hda
  · exact .inl he
  · exact .inr hda

theorem unmatched_of_lists (h : t.Linked) {p : Nat → Bool} {root a : Nat} (ha : t.Lists root a) :
    t.Unmatched p a ↔ (t.below root).filter p = [] := by
  rw [List.filter_eq_nil_iff, h.below_eq]
  constructor
  · intro hu b hb
    simp [hu root (h.agree.2 ha) b hb]
  · intro hm q hq b hb
    rw [h.agree.2 ha] at hq
    cases hq
    simpa using hm b hb

theorem mem_outermost (h : t.Linked) {p : Nat → Bool} {root x : Nat} :
    x ∈ t.outermost p root ↔ Relation.TransGen t.Lists root x ∧ p x = true ∧
      ∀ a, Relation.TransGen t.Lists root a → Relation.TransGen t.Lists a x → t.Unmatched p a := by
  fun_induction outermost t p root with
  | case1 root hm ih =>
    -- no child of the root matches, so that `x` is found below one of them
    have hlists : ∀ c : { c // c ∈ t.below root }, t.Lists root c.1 := by
      intro c
      rw [Lists, ← h.below_eq]
      exact c.2
    constructor
    · intro hx
      obtain ⟨c, -, hx⟩ := List.mem_flatMap.1 hx
      obtain ⟨hcx, hp, hu⟩ := (ih c).1 hx
      refine ⟨.head (hlists c) hcx, hp, fun a ha hax => ?_⟩
      rcases h.eq_or_below (hlists c) hcx ha hax with rfl | hca
      · exact (h.unmatched_of_lists (hlists c)).2 hm
      · exact hu a hca hax
    · rintro ⟨hx, hp, hu⟩
      obtain ⟨c, hc, hcx⟩ := Relation.TransGen.head'_iff.1 hx
      have hbelow : c ∈ t.below root := by rwa [h.below_eq]
      rcases Relation.reflTransGen_iff_eq_or_transGen.1 hcx with rfl | hcx
      · exact absurd hp (List.filter_eq_nil_iff.1 hm x hbelow)
      · refine List.mem_flatMap.2 ⟨⟨c, hbelow⟩, List.mem_attach _ _, ?_⟩
        exact (ih ⟨c, hbelow⟩).2 ⟨hcx, hp, fun a ha hax => hu a (.head hc ha) hax⟩
  | case2 root hm =>
    -- a child of the root matches, so that nothing below a child is reached
    rw [List.mem_filter, h.below_eq]
    constructor
    · rintro ⟨hx, hp⟩
      exact ⟨.single hx, hp, fun a ha hax => absurd hax (h.not_between hx ha)⟩
    · rintro ⟨hx, hp, hu⟩
      obtain ⟨c, hc, hcx⟩ := Relation.TransGen.head'_iff.1 hx
      rcases Relation.reflTransGen_iff_eq_or_transGen.1 hcx with rfl | hcx
      · exact ⟨hc, hp⟩
      · exact absurd ((h.unmatched_of_lists hc).1 (hu c (.single hc) hcx)) hm

/-- A match is passed over only if it lies below the parent of one of the shallowest matches. -/
theorem exists_outermost_beside (h : t.Linked) {p : Nat → Bool} {root x : Nat}
    (hx : Relation.TransGen t.Lists root x) (hp : p x = true) :
    ∃ y ∈ t.outermost p root, ∃ q, t.parent? y = some q ∧ Relation.TransGen t.Lists q x := by
  fun_induction outermost t p root with
  | case1 root hm ih =>
    -- no child of the root matches, so that `x` lies below one of them
    obtain ⟨c, hc, hcx⟩ := Relation.TransGen.head'_iff.1 hx
    have hbelow : c ∈ t.below root := by rwa [h.below_eq]
    rcases Relation.reflTransGen_iff_eq_or_transGen.1 hcx with rfl | hcx
    · exact absurd hp (List.filter_eq_nil_iff.1 hm x hbelow)
    · obtain ⟨y, hy, hq⟩ := ih ⟨c, hbelow⟩ hcx
      exact ⟨y, List.mem_flatMap.2 ⟨⟨c, hbelow⟩, List.mem_attach _ _, hy⟩, hq⟩
  | case2 root hm =>
    obtain ⟨y, hy⟩ := List.exists_mem_of_ne_nil _ hm
    have hlists : t.Lists root y := by
      rw [Lists, ← h.below_eq]
      exact (List.mem_filter.1 hy).1
    exact ⟨y, hy, root, h.agree.2 hlists, hx⟩

/-- No node between the root and one of the shallowest matches matches itself. -/
theorem eq_false_of_between (h : t.Linked) {p : Nat → Bool} {root a x : Nat}
    (hx : x ∈ t.outermost p root) (ha : Relation.TransGen t.Lists root a)
    (hax : Relation.TransGen t.Lists a x) : p a = false := by
  obtain ⟨q, -, hq⟩ := Relation.TransGen.tail'_iff.1 ha
  exact (h.mem_outermost.1 hx).2.2 a ha hax q (h.agree.2 hq) a hq

end Linked

/-! ## Searches in trees that have been built -/

/-- A search everywhere answers with the matches in the listing of all nodes below the root, one by
one, and with nothing from then on. They are the matches from which climbing up leads to the root,
and none comes twice. -/
theorem search_everywhere_of_built_tree (path : Path) (steps : List BuildStep) (root : Nat)
    (p : Nat → Bool) :
    let t := performAll { path } steps
    let s := Search.start t root .everywhere p
    let found := t.find root .everywhere p
    (∀ id, t.descendants id = (t.children id).flatMap fun c => c :: t.descendants c) ∧
    found = (t.descendants root).filter p ∧
    (∀ n, s.answer n = found[n]?) ∧
    (∀ n m, n ≤ m → s.answer n = none → s.answer m = none) ∧
    (∀ x, x ∈ found ↔ p x = true ∧ ∃ n, t.climb (n + 1) x = some root) ∧
    found.Nodup ∧ root ∉ found := by
  intro t s found
  have ht : t.Linked := (linked_empty path).performAll steps
  have hmem : ∀ x, x ∈ found ↔ p x = true ∧ ∃ n, t.climb (n + 1) x = some root := by
    intro x
    rw [ht.climb_iff, ht.mem_find_everywhere, and_comm]
  refine ⟨fun id => ?_, t.find_everywhere root p, s.answer_eq, fun n m => s.answer_eq_none_of_le,
    hmem, ht.nodup_find_everywhere root p, fun hroot => ?_⟩
  · rw [descendants_eq, ht.below_eq]
  · have := ht.lt_of_transGen (ht.climb_iff.1 ((hmem root).1 hroot).2)
    omega

/-- A search for the shallowest matches answers, each once and one by one, with the matches below
the root that have no match beside or among the nodes between the root and themselves. So none of
them lies below another, nor below any match below the root. -/
theorem search_shallowest_of_built_tree (path : Path) (steps : List BuildStep) (root : Nat)
    (p : Nat → Bool) :
    let t := performAll { path } steps
    let s := Search.start t root .shallowest p
    let found := t.find root .shallowest p
    (∀ n, s.answer n = found[n]?) ∧
    (∀ n m, n ≤ m → s.answer n = none → s.answer m = none) ∧
    found.Nodup ∧
    (∀ x, x ∈ found ↔ Relation.TransGen t.Lists root x ∧ p x = true ∧
      ∀ a, Relation.TransGen t.Lists root a → Relation.TransGen t.Lists a x →
        ∀ q, t.parent? a = some q → ∀ b ∈ t.children q, p b = false) ∧
    (∀ x ∈ found, ∀ y ∈ found, ¬ Relation.TransGen t.Lists x y) ∧
    (∀ x ∈ found, ∀ a, Relation.TransGen t.Lists root a → Relation.TransGen t.Lists a x →
      p a = false) := by
  intro t s found
  have ht : t.Linked := (linked_empty path).performAll steps
  have hfound : found = t.outermost p root := t.find_shallowest root p
  refine ⟨s.answer_eq, fun n m => s.answer_eq_none_of_le, ?_, ?_, ?_, ?_⟩
  · rw [hfound]
    exact (ht.nodup_descendants root).sublist (t.outermost_sublist p root)
  · intro x
    rw [hfound]
    exact ht.mem_outermost
  · rw [hfound]
    intro x hx y hy hxy
    obtain ⟨hroot, hpx, -⟩ := ht.mem_outermost.1 hx
    rw [ht.eq_false_of_between hy hroot hxy] at hpx
    cases hpx
  · rw [hfound]
    intro x hx a ha hax
    exact ht.eq_false_of_between hx ha hax

/-- The shallowest matches are some of the matches everywhere and come in the same order. If there
is a match at all, there is one of them; each match lies below the parent of one. -/
theorem searches_agree_of_built_tree (path : Path) (steps : List BuildStep) (root : Nat)
    (p : Nat → Bool) :
    let t := performAll { path } steps
    let shallow := t.find root .shallowest p
    let all := t.find root .everywhere p
    shallow.Sublist all ∧ (shallow = [] ↔ all = []) ∧
    ∀ x ∈ all, ∃ y ∈ shallow, ∃ q, t.parent? y = some q ∧ Relation.TransGen t.Lists q x := by
  intro t shallow all
  have ht : t.Linked := (linked_empty path).performAll steps
  have hshallow : shallow = t.outermost p root := t.find_shallowest root p
  have hall : all = (t.descendants root).filter p := t.find_everywhere root p
  refine ⟨?_, ?_, ?_⟩
  · rw [hshallow, hall, ← t.filter_outermost p root]
    exact (t.outermost_sublist p root).filter p
  · rw [hshallow, hall, outermost_eq_nil_iff, List.filter_eq_nil_iff]
    simp only [Bool.not_eq_true]
  · intro x hx
    obtain ⟨hbelow, hp⟩ := ht.mem_find_everywhere.1 hx
    rw [hshallow]
    exact ht.exists_outermost_beside hbelow hp

end Tree

end MethodRoles
