import Mathlib.Data.List.Nodup
import MethodRoles.Model.Load

/-!
# What can be wrong with a file model

The checks on a file model are listed in the order in which they are made, each with the fault that
it finds. They find nothing exactly when the model meets one condition on all of its links, bodies
and calls together.
-/
namespace MethodRoles

namespace FileModel

def kindAt? (m : FileModel) (id : Nat) : Option NodeKind := m.nodes[id]?.map (·.kind)

/-- The children that a node of the model lists; a node that does not exist lists none. -/
def childrenAt (m : FileModel) (id : Nat) : List Nat :=
  match m.nodes[id]? with
  | some n => n.children
  | none => []

/-- `c` is listed as a child of `p`. -/
def Lists (m : FileModel) (p c : Nat) : Prop := c ∈ m.childrenAt p

instance (m : FileModel) (p c : Nat) : Decidable (m.Lists p c) :=
  inferInstanceAs (Decidable (c ∈ m.childrenAt p))

/-- The target of the last call for a node. -/
def targetAt? (m : FileModel) (id : Nat) : Option Target :=
  (m.calls.filter (·.node = id)).getLast?.map (·.target)

/-- Links go forward to existing nodes, no node is listed twice, bodies exist, and calls are given
for invocations. -/
structure Valid (m : FileModel) : Prop where
  forward : ∀ p c, m.Lists p c → p < c ∧ c < m.nodes.length
  once : (m.nodes.flatMap (·.children)).Nodup
  bodies : ∀ method ∈ m.methods, ∀ body, method.body = some body → body < m.nodes.length
  calls : ∀ call ∈ m.calls, m.kindAt? call.node = some .invocation

/-! ## Faults in the order of the checks -/

/-- The links that nodes ask for, parent first; the first node has the name `p`. -/
def linksFrom (p : Nat) : List NodeModel → List (Nat × Nat)
  | [] => []
  | n :: nodes => n.children.map (p, ·) ++ linksFrom (p + 1) nodes

def links (m : FileModel) : List (Nat × Nat) := linksFrom 0 m.nodes

/-- What is wrong with a link after `earlier` ones, in a file of `size` nodes. -/
def linkFault? (size : Nat) (earlier : List (Nat × Nat)) (link : Nat × Nat) : Option LinkError :=
  if size ≤ link.2 then some (.unknownNode link.2)
  else if link.2 ≤ link.1 then some (.outOfOrder link.1 link.2)
  else (earlier.find? (·.2 = link.2)).map fun l => .multipleParents link.2 l.1 link.1

/-- The faults of links, each of which is checked against all that come before it. -/
def linkFaults (size : Nat) (earlier : List (Nat × Nat)) : List (Nat × Nat) → List LinkError
  | [] => []
  | l :: links => (linkFault? size earlier l).toList ++ linkFaults size (earlier ++ [l]) links

def bodyFault? (m : FileModel) (method : Method) : Option LoadError :=
  method.body.bind fun body =>
    if body < m.nodes.length then none else some (.unknownBody m.path method.name body)

def callFault? (m : FileModel) (call : CallModel) : Option LoadError :=
  if m.kindAt? call.node = some .invocation then none else some (.notAnInvocation m.path call.node)

/-- All faults of a model: of its links, then of its bodies, then of its calls. -/
def faults (m : FileModel) : List LoadError :=
  (linkFaults m.nodes.length [] m.links).map (.link m.path) ++
    m.methods.filterMap m.bodyFault? ++ m.calls.filterMap m.callFault?

/-! ## Models without faults -/

theorem mem_linksFrom {k p c : Nat} {nodes : List NodeModel} :
    (p, c) ∈ linksFrom k nodes ↔ k ≤ p ∧ ∃ n, nodes[p - k]? = some n ∧ c ∈ n.children := by
  induction nodes generalizing k with
  | nil => simp [linksFrom]
  | cons n nodes ih =>
    simp only [linksFrom, List.mem_append, List.mem_map, Prod.mk.injEq, ih]
    by_cases hp : p = k
    · subst hp
      have : ¬ p + 1 ≤ p := by omega
      simp [this]
    · constructor
      · rintro (⟨_, _, rfl, _⟩ | ⟨hk, h⟩)
        · exact absurd rfl hp
        · have he : p - k = (p - (k + 1)) + 1 := by omega
          exact ⟨by omega, by simpa [he] using h⟩
      · rintro ⟨hk, h⟩
        have he : p - k = (p - (k + 1)) + 1 := by omega
        exact .inr ⟨by omega, by simpa [he] using h⟩

theorem mem_links {m : FileModel} {p c : Nat} : (p, c) ∈ m.links ↔ m.Lists p c := by
  rw [links, mem_linksFrom, Lists, childrenAt]
  cases m.nodes[p]? <;> simp

theorem map_snd_linksFrom (k : Nat) (nodes : List NodeModel) :
    (linksFrom k nodes).map Prod.snd = nodes.flatMap (·.children) := by
  induction nodes generalizing k with
  | nil => rfl
  | cons n nodes ih => simp [linksFrom, ih, Function.comp_def]

theorem linkFault?_eq_none {size : Nat} {earlier : List (Nat × Nat)} {l : Nat × Nat} :
    linkFault? size earlier l = none ↔
      l.1 < l.2 ∧ l.2 < size ∧ l.2 ∉ earlier.map Prod.snd := by
  unfold linkFault?
  split
  · simp only [reduceCtorEq, false_iff]; omega
  split
  · simp only [reduceCtorEq, false_iff]; omega
  · simp only [Option.map_eq_none_iff, List.find?_eq_none, decide_eq_true_eq, List.mem_map,
      not_exists, not_and]
    constructor
    · intro h
      exact ⟨by omega, by omega, h⟩
    · exact fun h => h.2.2

/-- Whether any link is at fault can be told from all links at once. -/
theorem linkFaults_eq_nil {size : Nat} {earlier links : List (Nat × Nat)} :
    linkFaults size earlier links = [] ↔
      (∀ l ∈ links, l.1 < l.2 ∧ l.2 < size) ∧ (links.map Prod.snd).Nodup ∧
        ∀ l ∈ links, l.2 ∉ earlier.map Prod.snd := by
  induction links generalizing earlier with
  | nil => simp [linkFaults]
  | cons l links ih =>
    simp only [linkFaults, List.append_eq_nil_iff, Option.toList_eq_nil_iff, linkFault?_eq_none, ih,
      List.forall_mem_cons, List.map_cons, List.nodup_cons, List.map_append, List.mem_append]
    constructor
    · rintro ⟨⟨hlt, hs, hl⟩, hall, hnodup, hnew⟩
      refine ⟨⟨⟨hlt, hs⟩, hall⟩, ⟨?_, hnodup⟩, hl, fun k hk h => hnew k hk (.inl h)⟩
      intro h
      obtain ⟨k, hk, he⟩ := List.mem_map.1 h
      exact hnew k hk (.inr (by simp [he]))
    · rintro ⟨⟨⟨hlt, hs⟩, hall⟩, ⟨hl, hnodup⟩, hn, hnew⟩
      refine ⟨⟨hlt, hs, hn⟩, hall, hnodup, fun k hk h => ?_⟩
      rcases h with h | h
      · exact hnew k hk h
      · have he : k.2 = l.2 := by simpa using h
        exact hl (he ▸ List.mem_map_of_mem hk)

theorem faults_eq_nil {m : FileModel} : m.faults = [] ↔ m.Valid := by
  have hbody : (∀ method ∈ m.methods, m.bodyFault? method = none) ↔
      ∀ method ∈ m.methods, ∀ body, method.body = some body → body < m.nodes.length := by
    refine forall₂_congr fun method _ => ?_
    cases hb : method.body <;> simp [bodyFault?, hb]
  have hcall : (∀ call ∈ m.calls, m.callFault? call = none) ↔
      ∀ call ∈ m.calls, m.kindAt? call.node = some .invocation := by
    simp [callFault?]
  have hlinks : (∀ l ∈ m.links, l.1 < l.2 ∧ l.2 < m.nodes.length) ↔
      ∀ p c, m.Lists p c → p < c ∧ c < m.nodes.length := by
    simp [Prod.forall, mem_links]
  simp only [faults, List.append_eq_nil_iff, List.map_eq_nil_iff, linkFaults_eq_nil,
    List.filterMap_eq_nil_iff, hbody, hcall, hlinks]
  rw [links, map_snd_linksFrom]
  constructor
  · rintro ⟨⟨⟨hf, ho, -⟩, hb⟩, hc⟩
    exact ⟨hf, ho, hb, hc⟩
  · rintro ⟨hf, ho, hb, hc⟩
    exact ⟨⟨⟨hf, ho, by simp⟩, hb⟩, hc⟩

end FileModel

end MethodRoles
