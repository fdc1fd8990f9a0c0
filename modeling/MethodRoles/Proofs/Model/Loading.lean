import MethodRoles.Proofs.Model.Faults
import MethodRoles.Proofs.Tree.Links

/-!
# Loading is exact

While a model is loaded, the tree holds just the links that have been made so far: each state of the
builder is a function of the nodes and of a list of links. So loading fails with the first fault of
the model, and without a fault it gives back the nodes, the links and the calls of the model.
-/
namespace MethodRoles

namespace Tree

/-- The tree of the given nodes with the given links. -/
def withLinks (path : Path) (nodes : List NodeModel) (links : List (Nat × Nat)) : Tree where
  path
  nodes := (nodes.mapIdx fun id n =>
    { kind := n.kind
      text := n.text
      span := n.span
      parent := (links.find? (·.2 = id)).map Prod.fst
      children := (links.filter (·.1 = id)).map Prod.snd }).toArray

variable (path : Path) (nodes : List NodeModel) (links : List (Nat × Nat))

@[simp] theorem size_withLinks : (withLinks path nodes links).size = nodes.length := by
  simp [withLinks, size]

theorem node?_withLinks (id : Nat) :
    (withLinks path nodes links).node? id = nodes[id]?.map fun n =>
      { kind := n.kind
        text := n.text
        span := n.span
        parent := (links.find? (·.2 = id)).map Prod.fst
        children := (links.filter (·.1 = id)).map Prod.snd } := by
  simp [withLinks, node?]

theorem parent?_withLinks {id : Nat} (h : id < nodes.length) :
    (withLinks path nodes links).parent? id = (links.find? (·.2 = id)).map Prod.fst := by
  simp [parent?, node?_withLinks, List.getElem?_eq_getElem h]

theorem hasKind_withLinks (kind : NodeKind) (id : Nat) :
    (withLinks path nodes links).hasKind kind id = (nodes[id]?.map (·.kind) = some kind) := by
  rw [hasKind, node?_withLinks]
  cases nodes[id]? <;> simp

/-- Trees with the same path and the same nodes under all names are equal. -/
theorem ext_node? {t t' : Tree} (hpath : t.path = t'.path)
    (hnode : ∀ id, t.node? id = t'.node? id) :
    t = t' := by
  cases t with
  | mk path nodes =>
    cases t' with
    | mk path' nodes' =>
      have hn : nodes = nodes' := Array.ext_getElem? hnode
      simp only [Tree.mk.injEq]
      exact ⟨hpath, hn⟩

/-- A new link to a node without a parent is one more link in the list. -/
theorem link_withLinks {p c : Nat} (h : p ≠ c) (hfree : links.find? (·.2 = c) = none) :
    (withLinks path nodes links).link p c = withLinks path nodes (links ++ [(p, c)]) := by
  refine ext_node? (path_link _ p c) ?_
  intro id
  rw [node?_link _ h, node?_withLinks, node?_withLinks, Option.map_map]
  congr 1
  funext n
  simp only [Function.comp_apply, Node.mk.injEq, true_and, List.find?_append, List.filter_append,
    List.map_append]
  constructor
  · by_cases hc : id = c
    · subst hc; simp [hfree]
    · simp [hc, Ne.symm hc]
  · by_cases hp : id = p
    · subst hp; simp
    · simp [hp, Ne.symm hp]

theorem attach_withLinks {p c : Nat} (hp : p < nodes.length) :
    (withLinks path nodes links).attach p c =
      match FileModel.linkFault? nodes.length links (p, c) with
      | some e => .error e
      | none => .ok (withLinks path nodes (links ++ [(p, c)])) := by
  rw [attach_eq, size_withLinks, if_neg (by omega), FileModel.linkFault?]
  by_cases hc : nodes.length ≤ c
  · simp [hc]
  by_cases hlt : c ≤ p
  · simp [hc, hlt]
  simp only [hc, hlt, if_false]
  rw [parent?_withLinks _ _ _ (show c < nodes.length by omega)]
  cases hf : links.find? (·.2 = c) with
  | some l => rfl
  | none => rw [← link_withLinks _ _ _ (show p ≠ c by omega) hf]; rfl

/-! ## Links one after another -/

theorem attachAll_eq (t : Tree) (p : Nat) (children : List Nat) :
    t.attachAll p children = (children.map (p, ·)).foldlM (fun t l => t.attach l.1 l.2) t := by
  induction children generalizing t with
  | nil => rfl
  | cons c children ih =>
    rw [attachAll, List.map_cons, List.foldlM_cons]
    cases t.attach p c with
    | error e => rfl
    | ok t' => exact ih t'

theorem linkFrom_eq (t : Tree) (p : Nat) (nodes : List NodeModel) :
    t.linkFrom p nodes = (FileModel.linksFrom p nodes).foldlM (fun t l => t.attach l.1 l.2) t := by
  induction nodes generalizing t p with
  | nil => rfl
  | cons n nodes ih =>
    rw [linkFrom, FileModel.linksFrom, List.foldlM_append, ← attachAll_eq]
    cases t.attachAll p n.children with
    | error e => rfl
    | ok t' => exact ih t' (p + 1)

/-- Making links stops at the first fault; without one the tree holds all of them. -/
theorem foldlM_attach_withLinks {more : List (Nat × Nat)} (h : ∀ l ∈ more, l.1 < nodes.length) :
    more.foldlM (fun t l => t.attach l.1 l.2) (withLinks path nodes links) =
      match (FileModel.linkFaults nodes.length links more).head? with
      | some e => .error e
      | none => .ok (withLinks path nodes (links ++ more)) := by
  induction more generalizing links with
  | nil => simp [FileModel.linkFaults]; rfl
  | cons l more ih =>
    rw [List.foldlM_cons, attach_withLinks _ _ _ (h l (by simp)), FileModel.linkFaults]
    cases FileModel.linkFault? nodes.length links (l.1, l.2) with
    | some e => rfl
    | none =>
      have hm := ih (links ++ [l]) (fun k hk => h k (by simp [hk]))
      rw [List.append_assoc] at hm
      exact hm

theorem Linked.foldlM_attach {t t' : Tree} (h : t.Linked) {links : List (Nat × Nat)}
    (hl : links.foldlM (fun t l => t.attach l.1 l.2) t = .ok t') : t'.Linked := by
  induction links generalizing t with
  | nil => cases hl; exact h
  | cons l links ih =>
    rw [List.foldlM_cons] at hl
    cases ha : t.attach l.1 l.2 with
    | error e => rw [ha] at hl; cases hl
    | ok t₁ => rw [ha] at hl; exact ih (h.attach ha) hl

theorem Linked.foldl_push {t : Tree} (h : t.Linked) (nodes : List NodeModel) :
    (nodes.foldl (fun (t : Tree) n => t.push n.kind n.text n.span) t).Linked := by
  induction nodes generalizing t with
  | nil => exact h
  | cons n nodes ih => exact ih (h.push n.kind n.text n.span)

theorem linked_of_ofNodes {path : Path} {nodes : List NodeModel} {t : Tree}
    (h : ofNodes path nodes = .ok t) : t.Linked := by
  rw [ofNodes, linkFrom_eq] at h
  exact ((linked_empty path).foldl_push nodes).foldlM_attach h

theorem foldl_push_eq (t : Tree) (nodes : List NodeModel) :
    nodes.foldl (fun (t : Tree) n => t.push n.kind n.text n.span) t =
      { t with nodes := t.nodes ++ (nodes.map fun n =>
          ({ kind := n.kind, text := n.text, span := n.span } : Node)).toArray } := by
  induction nodes generalizing t with
  | nil => simp
  | cons n nodes ih =>
    rw [List.foldl_cons, ih]
    simp [push]

theorem ofNodes_eq :
    ofNodes path nodes =
      match (FileModel.linkFaults nodes.length [] (FileModel.linksFrom 0 nodes)).head? with
      | some e => .error e
      | none => .ok (withLinks path nodes (FileModel.linksFrom 0 nodes)) := by
  have hstart : nodes.foldl (fun (t : Tree) n => t.push n.kind n.text n.span) { path } =
      withLinks path nodes [] := by
    rw [foldl_push_eq]
    refine ext_node? rfl ?_
    intro id
    rw [node?_withLinks]
    simp [node?]
  have hrange : ∀ l ∈ FileModel.linksFrom 0 nodes, l.1 < nodes.length := by
    rintro ⟨p, c⟩ hl
    obtain ⟨-, n, hn, -⟩ := FileModel.mem_linksFrom.1 hl
    exact (List.getElem?_eq_some_iff.1 hn).1
  rw [ofNodes, hstart, linkFrom_eq, foldlM_attach_withLinks _ _ _ hrange, List.nil_append]

end Tree

namespace FileModel

theorem filter_linksFrom (k i : Nat) (nodes : List NodeModel) :
    ((linksFrom k nodes).filter (·.1 = k + i)).map Prod.snd =
      match nodes[i]? with
      | some n => n.children
      | none => [] := by
  induction nodes generalizing k i with
  | nil => rfl
  | cons n nodes ih =>
    rw [linksFrom, List.filter_append, List.map_append]
    cases i with
    | zero =>
      have hlater : (linksFrom (k + 1) nodes).filter (·.1 = k + 0) = [] := by
        rw [List.filter_eq_nil_iff]
        rintro ⟨p, c⟩ hl
        have := (mem_linksFrom.1 hl).1
        simp only [decide_eq_true_eq]
        omega
      rw [hlater]
      simp [List.filter_map, Function.comp_def]
    | succ i =>
      have hearlier : (n.children.map (k, ·)).filter (·.1 = k + (i + 1)) = [] := by
        simp [List.filter_eq_nil_iff]
      have he : k + (i + 1) = k + 1 + i := by omega
      rw [hearlier, he, ih]
      simp

/-! ## Bodies and calls -/

theorem checkBodies_eq (m : FileModel) {t : Tree} (hpath : t.path = m.path)
    (hsize : t.size = m.nodes.length) (methods : List Method) :
    checkBodies t methods =
      match (methods.filterMap m.bodyFault?).head? with
      | some e => .error e
      | none => .ok () := by
  induction methods with
  | nil => rfl
  | cons method methods ih =>
    rw [checkBodies, List.filterMap_cons, bodyFault?]
    cases hb : method.body with
    | none => exact ih
    | some body =>
      rw [Option.bind_some, hsize, hpath]
      by_cases h : body < m.nodes.length
      · simpa only [h, if_true] using ih
      · simp only [h, if_false, List.head?_cons]

theorem enterCalls_eq (m : FileModel) {t : Tree} (hpath : t.path = m.path)
    (hkind : ∀ kind id, t.hasKind kind id = (m.kindAt? id = some kind))
    (table : Std.HashMap Nat Target) (calls : List CallModel) :
    enterCalls t table calls =
      match (calls.filterMap m.callFault?).head? with
      | some e => .error e
      | none => .ok (calls.foldl (fun table c => table.insert c.node c.target) table) := by
  induction calls generalizing table with
  | nil => rfl
  | cons c calls ih =>
    rw [enterCalls, List.filterMap_cons, callFault?, List.foldl_cons]
    simp only [hkind, hpath]
    by_cases h : m.kindAt? c.node = some .invocation
    · simpa only [h, if_true] using ih _
    · simp only [h, if_false, List.head?_cons]

/-- In a table that is filled call by call, the last call for a node is found. -/
theorem getElem?_foldl_insert (calls : List CallModel) (table : Std.HashMap Nat Target) (id : Nat) :
    (calls.foldl (fun table c => table.insert c.node c.target) table)[id]? =
      ((calls.filter (·.node = id)).getLast?.map (·.target)).or table[id]? := by
  induction calls generalizing table with
  | nil => simp
  | cons c calls ih =>
    rw [List.foldl_cons, ih, Std.HashMap.getElem?_insert]
    by_cases h : c.node = id
    · cases hl : calls.filter (·.node = id) with
      | nil => simp [h, hl]
      | cons d rest => simp [h, hl, List.getLast?_cons (a := d)]
    · simp [h]

/-! ## The result -/

/-- What a model without faults is loaded as. -/
def loaded (m : FileModel) : SourceFile where
  tree := .withLinks m.path m.nodes m.links
  generated := m.generated
  methods := m.methods
  targets := m.calls.foldl (fun table c => table.insert c.node c.target) {}

theorem load_eq (m : FileModel) :
    m.load = match m.faults.head? with
      | some e => .error e
      | none => .ok m.loaded := by
  have hb := m.checkBodies_eq (t := .withLinks m.path m.nodes m.links) rfl (by simp) m.methods
  have hc := m.enterCalls_eq (t := .withLinks m.path m.nodes m.links) rfl
    (fun kind id => Tree.hasKind_withLinks _ _ _ kind id) {} m.calls
  rw [load, Tree.ofNodes_eq, faults, List.head?_append, List.head?_append, List.head?_map]
  rw [links] at hb hc ⊢
  cases (linkFaults m.nodes.length [] (linksFrom 0 m.nodes)).head? with
  | some e => rfl
  | none =>
    simp only [Option.map_none, Option.none_or, hb]
    cases (m.methods.filterMap m.bodyFault?).head? with
    | some e => rfl
    | none =>
      simp only [Option.none_or, hc]
      cases (m.calls.filterMap m.callFault?).head? with
      | some e => rfl
      | none => rfl

theorem load_eq_ok_iff {m : FileModel} {f : SourceFile} :
    m.load = .ok f ↔ m.faults = [] ∧ f = m.loaded := by
  rw [load_eq]
  cases m.faults with
  | nil => simp [eq_comm]
  | cons e faults => simp

theorem linked_of_load {m : FileModel} {f : SourceFile} (h : m.load = .ok f) : f.tree.Linked := by
  rw [load] at h
  split at h
  · cases h
  · next tree ht =>
    split at h
    · cases h
    · split at h
      · cases h
      · cases h; exact Tree.linked_of_ofNodes ht

end FileModel

/-- A node as a model gives it. -/
def Node.toModel (n : Node) : NodeModel :=
  { kind := n.kind, text := n.text, span := n.span, children := n.children }

theorem Tree.children_of_node?_toModel {t : Tree} {m : FileModel} {id : Nat}
    (h : (t.node? id).map Node.toModel = m.nodes[id]?) : t.children id = m.childrenAt id := by
  rw [FileModel.childrenAt, ← h, Tree.children]
  cases t.node? id <;> rfl

/-- A file holds what the model says: the same nodes in the same order, the links between them in
both directions, and for each node the target of the last call that names it. -/
structure SourceFile.Represents (f : SourceFile) (m : FileModel) : Prop where
  path : f.tree.path = m.path
  generated : f.generated = m.generated
  methods : f.methods = m.methods
  nodes : f.tree.nodes.toList.map Node.toModel = m.nodes
  parent : ∀ p c, f.tree.parent? c = some p ↔ m.Lists p c
  target : ∀ id, f.targets[id]? = m.targetAt? id

namespace SourceFile.Represents

variable {f : SourceFile} {m : FileModel}

theorem node (h : f.Represents m) (id : Nat) :
    (f.tree.node? id).map Node.toModel = m.nodes[id]? := by
  rw [← h.nodes]
  simp [Tree.node?]

theorem hasKind (h : f.Represents m) (kind : NodeKind) (id : Nat) :
    f.tree.hasKind kind id = true ↔ m.kindAt? id = some kind := by
  rw [FileModel.kindAt?, ← h.node, Tree.hasKind]
  cases f.tree.node? id <;> simp [Node.toModel]

theorem children (h : f.Represents m) (id : Nat) : f.tree.children id = m.childrenAt id :=
  Tree.children_of_node?_toModel (h.node id)

end SourceFile.Represents

namespace FileModel

theorem represents_of_load {m : FileModel} {f : SourceFile} (h : m.load = .ok f) :
    f.Represents m := by
  have hlinked := linked_of_load h
  obtain ⟨-, rfl⟩ := load_eq_ok_iff.1 h
  have hnode : ∀ id, (m.loaded.tree.node? id).map Node.toModel = m.nodes[id]? := by
    intro id
    have hc := filter_linksFrom 0 id m.nodes
    rw [Nat.zero_add] at hc
    rw [loaded, Tree.node?_withLinks, links]
    cases hn : m.nodes[id]? with
    | none => rfl
    | some n => simp [Node.toModel, hc, hn]
  refine ⟨rfl, rfl, rfl, ?_, ?_, ?_⟩
  · apply List.ext_getElem?
    intro id
    rw [← hnode id]
    simp [Tree.node?]
  · intro p c
    rw [hlinked.agree, Tree.children_of_node?_toModel (hnode p)]
    rfl
  · intro id
    simp [loaded, getElem?_foldl_insert, targetAt?]

/-- Loading succeeds exactly on valid models, fails with the first fault in the order of the checks,
and what it gives holds what the model says. -/
theorem load_exact (m : FileModel) :
    ((∃ f, m.load = .ok f) ↔ m.Valid) ∧
    (∀ e, m.load = .error e ↔ m.faults.head? = some e) ∧
    (∀ f, m.load = .ok f → f.Represents m) := by
  refine ⟨?_, ?_, fun f => represents_of_load⟩
  · simp [load_eq_ok_iff, faults_eq_nil]
  · intro e
    rw [load_eq]
    cases m.faults.head? <;> simp

-- a node listed twice is found before a call that is no invocation
example :
    load
      { path := ⟨"A.cs"⟩
        nodes := [{ kind := .block, children := [1, 1] }, { kind := .block }]
        calls := [{ node := 0, target := .user "Load" }] } =
      .error (.link ⟨"A.cs"⟩ (.multipleParents 1 0 0)) := rfl

end FileModel

end MethodRoles
