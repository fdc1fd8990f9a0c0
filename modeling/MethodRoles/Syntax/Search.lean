import MethodRoles.Syntax.Tree

/-!
# Searching below a node

A search yields nodes below its root one at a time, in the order of the text; the root itself is
never yielded. `everywhere` walks over all nodes below the root and yields each match, nested ones
included. `shallowest` looks at the children of a node: if some of them match, these are yielded and
nothing below the node is entered, else all children are searched in the same way.
-/
namespace MethodRoles

inductive SearchMode where
  | everywhere
  | shallowest
  deriving DecidableEq, Repr

structure Search where
  tree : Tree
  mode : SearchMode
  matching : Nat → Bool
  /-- Nodes still to be visited, the next one first. -/
  pending : List Nat
  /-- Matches that have been found and not been yielded. -/
  ready : List Nat := []

namespace Tree

@[simp] theorem weights_nil (t : Tree) : t.weights [] = 0 := rfl

@[simp] theorem weights_cons (t : Tree) (id : Nat) (ids : List Nat) :
    t.weights (id :: ids) = t.weight id + t.weights ids := rfl

@[simp] theorem weights_append (t : Tree) (ids more : List Nat) :
    t.weights (ids ++ more) = t.weights ids + t.weights more := by
  induction ids with
  | nil => simp
  | cons id ids ih => rw [List.cons_append, weights_cons, weights_cons, ih, Nat.add_assoc]

theorem length_le_weights (t : Tree) (ids : List Nat) : ids.length ≤ t.weights ids := by
  induction ids with
  | nil => simp
  | cons id ids ih => rw [weights_cons, weight_eq, List.length_cons]; omega

theorem length_filter_below_lt (t : Tree) (p : Nat → Bool) (id : Nat) :
    ((t.below id).filter p).length < t.weight id := by
  have := (t.below id).length_filter_le p
  have := t.length_le_weights (t.below id)
  rw [weight_eq]; omega

/-- Visits pending nodes up to the next match; gives it and what is pending then. -/
def visit (t : Tree) (p : Nat → Bool) : List Nat → Option Nat × List Nat
  | [] => (none, [])
  | id :: pending =>
    if p id then (some id, t.below id ++ pending) else t.visit p (t.below id ++ pending)
termination_by pending => t.weights pending
decreasing_by rw [weights_append, weights_cons, weight_eq]; omega

/-- Visits pending nodes up to one that has matching children; gives these and what is pending
then. -/
def expand (t : Tree) (p : Nat → Bool) : List Nat → List Nat × List Nat
  | [] => ([], [])
  | id :: pending =>
    match (t.below id).filter p with
    | [] => t.expand p (t.below id ++ pending)
    | found => (found, pending)
termination_by pending => t.weights pending
decreasing_by rw [weights_append, weights_cons, weight_eq]; omega

theorem weights_visit {t : Tree} {p : Nat → Bool} {pending rest : List Nat} {id : Nat}
    (h : t.visit p pending = (some id, rest)) : t.weights rest < t.weights pending := by
  fun_induction visit t p pending with
  | case1 => simp at h
  | case2 first pending hp =>
    obtain ⟨-, rfl⟩ : first = id ∧ t.below first ++ pending = rest := by simpa using h
    rw [weights_append, weights_cons, weight_eq]; omega
  | case3 first pending hp ih =>
    have := ih h
    rw [weights_append] at this
    rw [weights_cons, weight_eq]; omega

theorem weights_expand {t : Tree} {p : Nat → Bool} {pending ready rest : List Nat} {id : Nat}
    (h : t.expand p pending = (id :: ready, rest)) :
    t.weights rest + ready.length < t.weights pending := by
  fun_induction expand t p pending with
  | case1 => simp at h
  | case2 node pending hm ih =>
    have := ih h
    rw [weights_append] at this
    rw [weights_cons, weight_eq]; omega
  | case3 node pending hm =>
    obtain ⟨hf, rfl⟩ : (t.below node).filter p = id :: ready ∧ pending = rest := by simpa using h
    have := t.length_filter_below_lt p node
    rw [hf, List.length_cons] at this
    rw [weights_cons]; omega

end Tree

namespace Search

/-- A search for the matching nodes below `root`. -/
def start (tree : Tree) (root : Nat) (mode : SearchMode) (matching : Nat → Bool) : Search where
  tree
  mode
  matching
  pending := match mode with
    | .everywhere => tree.below root
    | .shallowest => [root]

/-- The next match, if there is one, and the search after it has been asked for. -/
def next (s : Search) : Option Nat × Search :=
  match s.ready with
  | id :: ready => (some id, { s with ready })
  | [] =>
    match s.mode with
    | .everywhere =>
      match s.tree.visit s.matching s.pending with
      | (found, pending) => (found, { s with pending })
    | .shallowest =>
      match s.tree.expand s.matching s.pending with
      | ([], pending) => (none, { s with pending })
      | (id :: ready, pending) => (some id, { s with ready, pending })

/-- A bound on the number of matches to come. -/
def bound (s : Search) : Nat := s.tree.weights s.pending + s.ready.length

theorem bound_next {s s' : Search} {id : Nat} (h : s.next = (some id, s')) :
    s'.bound < s.bound := by
  rw [next.eq_def] at h
  split at h
  next first ready hr =>
    obtain ⟨-, rfl⟩ : first = id ∧ { s with ready } = s' := by simpa using h
    simp [bound, hr]
  next hr =>
    split at h
    · split at h
      next found rest hv =>
        obtain ⟨rfl, rfl⟩ : found = some id ∧ { s with pending := rest } = s' := by simpa using h
        have := Tree.weights_visit hv
        simp only [bound]; omega
    · split at h
      · cases h
      next found ready rest hv =>
        obtain ⟨-, rfl⟩ : found = id ∧ { s with ready, pending := rest } = s' := by simpa using h
        have := Tree.weights_expand hv
        simp only [bound]; omega

/-- All matches to come, in order. -/
def toList (s : Search) : List Nat :=
  match _h : s.next with
  | (none, _) => []
  | (some id, rest) => id :: rest.toList
termination_by s.bound
decreasing_by exact bound_next _h

end Search

/-- The matching nodes below `root`, in order. -/
def Tree.find (t : Tree) (root : Nat) (mode : SearchMode) (matching : Nat → Bool) : List Nat :=
  (Search.start t root mode matching).toList

end MethodRoles
