import Mathlib.Data.List.Nodup
import MethodRoles.Syntax.Build

/-!
# Links of a tree

Every link is stored twice: the parent lists its child and the child names its parent. A builder
changes the two places one after the other. After any sequence of steps, refused ones included, the
two agree, links go forward and no node is listed twice, so that climbing up ends from every node.
-/
namespace MethodRoles

namespace Tree

/-- The tree with one more link, which nothing has checked. -/
def link (t : Tree) (p c : Nat) : Tree :=
  { t with
    nodes := (t.nodes.modify p fun n => { n with children := n.children ++ [c] }).modify c
      fun n => { n with parent := some p } }

@[simp] theorem size_link (t : Tree) (p c : Nat) : (t.link p c).size = t.size := by
  simp [size, link]

@[simp] theorem path_link (t : Tree) (p c : Nat) : (t.link p c).path = t.path := rfl

/-- The two changes can be made in either order. -/
theorem link_eq (t : Tree) {p c : Nat} (h : p ≠ c) :
    t.link p c = { t with
      nodes := (t.nodes.modify c fun n => { n with parent := some p }).modify p
        fun n => { n with children := n.children ++ [c] } } := by
  unfold link
  congr 1
  apply Array.toList_inj.1
  simp only [Array.toList_modify]
  exact List.modify_modify_ne _ _ _ h

/-- A link changes the parent of one node and the children of one node, and nothing else. -/
theorem node?_link (t : Tree) {p c : Nat} (h : p ≠ c) (id : Nat) :
    (t.link p c).node? id = (t.node? id).map fun n =>
      { n with
        parent := if id = c then some p else n.parent
        children := if id = p then n.children ++ [c] else n.children } := by
  simp only [node?, link, Array.getElem?_modify]
  by_cases hc : id = c
  · have hp : id ≠ p := by omega
    subst hc
    simp [hp, Ne.symm hp]
  · by_cases hp : id = p
    · subst hp
      simp [hc, Ne.symm hc]
    · simp [hc, hp, Ne.symm hc, Ne.symm hp]

theorem node?_eq_none {t : Tree} {id : Nat} : t.node? id = none ↔ t.size ≤ id := by
  simp [node?, size]

theorem exists_node {t : Tree} {id : Nat} (h : id < t.size) : ∃ n, t.node? id = some n := by
  cases hn : t.node? id with
  | none => rw [node?_eq_none] at hn; omega
  | some n => exact ⟨n, rfl⟩

theorem children_eq_nil_of_size_le {t : Tree} {id : Nat} (h : t.size ≤ id) :
    t.children id = [] := by
  simp [children, node?_eq_none.2 h]

theorem parent?_link (t : Tree) {p c : Nat} (h : p ≠ c) (hc : c < t.size) (id : Nat) :
    (t.link p c).parent? id = if id = c then some p else t.parent? id := by
  simp only [parent?, t.node?_link h]
  by_cases hi : id = c
  · obtain ⟨n, hn⟩ := exists_node hc
    subst hi
    simp [hn]
  · cases t.node? id <;> simp [hi]

theorem children_link (t : Tree) {p c : Nat} (h : p ≠ c) (hp : p < t.size) (id : Nat) :
    (t.link p c).children id = if id = p then t.children p ++ [c] else t.children id := by
  simp only [children, t.node?_link h]
  by_cases hi : id = p
  · obtain ⟨n, hn⟩ := exists_node hp
    subst hi
    simp [hn]
  · cases t.node? id <;> simp [hi]

/-- The checks of `attach`, in their order. -/
theorem attach_eq (t : Tree) (p c : Nat) :
    t.attach p c =
      if t.size ≤ p then .error (.unknownNode p)
      else if t.size ≤ c then .error (.unknownNode c)
      else if c ≤ p then .error (.outOfOrder p c)
      else match t.parent? c with
        | some q => .error (.multipleParents c q p)
        | none => .ok (t.link p c) := by
  unfold attach
  by_cases hp : t.size ≤ p
  · simp [node?_eq_none.2 hp, hp]
  obtain ⟨n, hn⟩ := exists_node (show p < t.size by omega)
  by_cases hc : t.size ≤ c
  · simp [hn, node?_eq_none.2 hc, hp, hc]
  obtain ⟨k, hk⟩ := exists_node (show c < t.size by omega)
  simp only [hn, hk, hp, hc, if_false, parent?, Option.bind_some]
  rfl

theorem attach_eq_ok_iff {t t' : Tree} {p c : Nat} :
    t.attach p c = .ok t' ↔ p < c ∧ c < t.size ∧ t.parent? c = none ∧ t' = t.link p c := by
  rw [attach_eq]
  constructor
  · intro h
    split at h
    · cases h
    split at h
    · cases h
    split at h
    · cases h
    split at h
    · cases h
    · next hn => cases h; exact ⟨by omega, by omega, hn, rfl⟩
  · rintro ⟨hlt, hsize, hn, rfl⟩
    rw [if_neg (by omega), if_neg (by omega), if_neg (by omega), hn]

/-! ## The invariant -/

/-- Both records of the links agree, links go forward, and no node is listed twice by its parent. -/
structure Linked (t : Tree) : Prop where
  forward : ∀ {p c}, c ∈ t.children p → p < c ∧ c < t.size
  agree : ∀ {p c}, t.parent? c = some p ↔ c ∈ t.children p
  distinct : ∀ p, (t.children p).Nodup

theorem linked_empty (path : Path) : Linked { path } where
  forward h := by simp [children, node?] at h
  agree := by simp [children, parent?, node?]
  distinct p := by simp [children, node?]

theorem node?_push (t : Tree) (kind : NodeKind) (text : String) (span : Span) (id : Nat) :
    (t.push kind text span).node? id = if id =
      t.size then some { kind, text, span } else t.node? id := by
  simp only [node?, push, Array.getElem?_push]
  rfl

theorem children_push (t : Tree) (kind : NodeKind) (text : String) (span : Span) (id : Nat) :
    (t.push kind text span).children id = t.children id := by
  by_cases h : id = t.size
  · rw [children_eq_nil_of_size_le (show t.size ≤ id by omega)]
    simp [children, node?_push, h]
  · simp [children, node?_push, h]

theorem parent?_push (t : Tree) (kind : NodeKind) (text : String) (span : Span) (id : Nat) :
    (t.push kind text span).parent? id = t.parent? id := by
  by_cases h : id = t.size
  · simp [parent?, node?_push, h, node?_eq_none.2 (Nat.le_refl t.size)]
  · simp [parent?, node?_push, h]

theorem Linked.push {t : Tree} (h : t.Linked) (kind : NodeKind) (text : String) (span : Span) :
    (t.push kind text span).Linked where
  forward hc := by
    rw [children_push] at hc
    have := h.forward hc
    rw [size_push]
    omega
  agree := by
    intro p c
    rw [children_push, parent?_push]
    exact h.agree
  distinct p := by
    rw [children_push]
    exact h.distinct p

/-- A node without a parent can be linked below any earlier node. -/
theorem Linked.link {t : Tree} (h : t.Linked) {p c : Nat} (hlt : p < c) (hc : c < t.size)
    (hfree : t.parent? c = none) : (t.link p c).Linked := by
  have hne : p ≠ c := by omega
  have hp : p < t.size := by omega
  have hunlisted : ∀ q, c ∉ t.children q := by
    intro q hq
    rw [h.agree.2 hq] at hfree
    cases hfree
  constructor
  · intro q d hd
    rw [t.children_link hne hp] at hd
    rw [size_link]
    split at hd
    · next hq =>
      rcases List.mem_append.1 hd with hd | hd
      · subst hq; exact h.forward hd
      · have : d = c := by simpa using hd
        omega
    · exact h.forward hd
  · intro q d
    rw [t.children_link hne hp, t.parent?_link hne hc]
    by_cases hd : d = c
    · subst hd
      by_cases hq : q = p
      · simp [hq]
      · simp [hq, Ne.symm hq, hunlisted q]
    · by_cases hq : q = p
      · subst hq; simp [hd, h.agree]
      · simp [hd, hq, h.agree]
  · intro q
    rw [t.children_link hne hp]
    split
    · exact (h.distinct p).append (by simp) (by simpa using hunlisted p)
    · exact h.distinct q

theorem Linked.attach {t t' : Tree} (h : t.Linked) {p c : Nat} (ha : t.attach p c = .ok t') :
    t'.Linked := by
  obtain ⟨hlt, hc, hfree, rfl⟩ := attach_eq_ok_iff.1 ha
  exact h.link hlt hc hfree

/-- No node stands in two child lists, or twice in one. -/
theorem Linked.once {t : Tree} (h : t.Linked) : ((List.range t.size).flatMap t.children).Nodup := by
  rw [List.nodup_flatMap]
  refine ⟨fun p _ => h.distinct p, ?_⟩
  refine List.nodup_range.imp ?_
  intro p q hne c hp hq
  have hp := h.agree.2 hp
  rw [h.agree.2 hq] at hp
  cases hp
  exact hne rfl

/-- The node that is `n` links above another. -/
def climb (t : Tree) : Nat → Nat → Option Nat
  | 0, id => some id
  | n + 1, id => (t.parent? id).bind (t.climb n)

/-- Parents come before their children, so that climbing ends. -/
theorem Linked.climb_ends {t : Tree} (h : t.Linked) (id : Nat) :
    ∃ n root, t.climb n id = some root ∧ t.parent? root = none := by
  induction id using Nat.strongRecOn with
  | ind id ih =>
    cases hp : t.parent? id with
    | none => exact ⟨0, id, rfl, hp⟩
    | some p =>
      have hlt := (h.forward (h.agree.1 hp)).1
      obtain ⟨n, root, hn, hr⟩ := ih p hlt
      exact ⟨n + 1, root, by simpa [climb, hp] using hn, hr⟩

/-! ## Whole runs of a builder -/

theorem perform_push (t : Tree) (kind : NodeKind) (text : String) (span : Span) :
    t.perform (.push kind text span) = (.ok (some t.size), t.push kind text span) := rfl

end Tree

theorem Build.run_get {α : Type} (f : Tree → Build α) (t : Tree) :
    (get >>= f : Build α).run.run t = (f t).run.run t := rfl

namespace Tree

/-- All checks come before the first change, so that a refusal changes nothing. -/
theorem perform_attach (t : Tree) (p c : Nat) :
    t.perform (.attach p c) =
      match t.attach p c with
      | .ok t' => (.ok none, t')
      | .error e => (.error e, t) := by
  unfold perform Build.step Build.attach
  simp only [bind_assoc, Build.run_get]
  rw [attach_eq]
  by_cases hp : t.size ≤ p
  · simp only [hp, if_true]
    rfl
  by_cases hc : t.size ≤ c
  · simp only [hp, hc, if_true, if_false]
    rfl
  by_cases hlt : c ≤ p
  · simp only [hp, hc, hlt, if_true, if_false]
    rfl
  simp only [hp, hc, hlt, if_false]
  cases hq : t.parent? c with
  | some q => rfl
  | none =>
    -- the builder writes to the child first
    simp only [t.link_eq (show p ≠ c by omega)]
    rfl

theorem Linked.perform {t : Tree} (h : t.Linked) (s : BuildStep) : (t.perform s).2.Linked := by
  cases s with
  | push kind text span =>
    rw [perform_push]
    exact h.push kind text span
  | attach p c =>
    rw [perform_attach]
    cases ha : t.attach p c with
    | error e => exact h
    | ok t' => exact h.attach ha

theorem Linked.performAll {t : Tree} (h : t.Linked) (steps : List BuildStep) :
    (t.performAll steps).Linked := by
  induction steps generalizing t with
  | nil => exact h
  | cons s steps ih => exact ih (h.perform s)

/-- The part of a node that no link changes. -/
def content? (t : Tree) (id : Nat) : Option (NodeKind × String × Span) :=
  (t.node? id).map fun n => (n.kind, n.text, n.span)

theorem content?_link (t : Tree) {p c : Nat} (h : p ≠ c) (id : Nat) :
    (t.link p c).content? id = t.content? id := by
  simp only [content?, t.node?_link h, Option.map_map]
  rfl

theorem perform_attach_eq_ok_iff {t : Tree} {p c : Nat} {a : Option Nat} :
    (t.perform (.attach p c)).1 = .ok a ↔ a = none ∧ ∃ t', t.attach p c = .ok t' := by
  rw [perform_attach]
  cases t.attach p c with
  | error e => simp
  | ok t' => simp [eq_comm]

/-- After any steps on an empty tree, refused links among them: links go forward, the two records of
the links agree, no node is listed twice, and climbing up ends. A refused link leaves the tree as it
was. A link is made exactly if the child comes later, exists and has no parent yet, and it changes
the parent of one node and the children of one node only. -/
theorem performAll_well_linked (path : Path) (steps : List BuildStep) :
    let t := performAll { path } steps
    (∀ p c, c ∈ t.children p → p < c ∧ c < t.size) ∧
    (∀ p c, t.parent? c = some p ↔ c ∈ t.children p) ∧
    ((List.range t.size).flatMap t.children).Nodup ∧
    (∀ id, ∃ n root, t.climb n id = some root ∧ t.parent? root = none) ∧
    (∀ p c e, (t.perform (.attach p c)).1 = .error e → (t.perform (.attach p c)).2 = t) ∧
    (∀ p c, (∃ a, (t.perform (.attach p c)).1 = .ok a) ↔
      p < c ∧ c < t.size ∧ t.parent? c = none) ∧
    (∀ p c a, (t.perform (.attach p c)).1 = .ok a →
      let t' := (t.perform (.attach p c)).2
      t'.path = t.path ∧ t'.size = t.size ∧
      (∀ id, t'.content? id = t.content? id) ∧
      (∀ id, t'.parent? id = if id = c then some p else t.parent? id) ∧
      (∀ id, t'.children id = if id = p then t.children p ++ [c] else t.children id)) := by
  intro t
  have ht : t.Linked := (linked_empty path).performAll steps
  refine ⟨fun p c => ht.forward, fun p c => ht.agree, ht.once, ht.climb_ends, ?_, ?_, ?_⟩
  · intro p c e he
    rw [perform_attach] at he ⊢
    cases ha : t.attach p c with
    | error _ => rfl
    | ok t' => rw [ha] at he; cases he
  · intro p c
    simp [perform_attach_eq_ok_iff, attach_eq_ok_iff]
  · intro p c a ha
    obtain ⟨-, t', ht'⟩ := perform_attach_eq_ok_iff.1 ha
    obtain ⟨hlt, hc, -, rfl⟩ := attach_eq_ok_iff.1 ht'
    have hne : p ≠ c := by omega
    have hp : p < t.size := by omega
    simp only [perform_attach, ht']
    exact ⟨rfl, t.size_link p c, t.content?_link hne, t.parent?_link hne hc, t.children_link hne hp⟩

end Tree

end MethodRoles
