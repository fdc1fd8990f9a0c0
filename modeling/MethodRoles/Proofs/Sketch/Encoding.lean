import MethodRoles.Proofs.Model.Loading
import MethodRoles.Proofs.Sketch.Lowering
import MethodRoles.Proofs.Sketch.Reading

/-!
# Sketches and the files that are loaded from them

The model of a sketch has no fault in its links and bodies, so that loading can only fail at a
target on something that is no invocation. Otherwise nothing is lost: every sketch is read back at
its place in the listing, and it takes up the lines that belong to its part of the listing.
-/
namespace MethodRoles

namespace Sketch

/-- A target on something that is no invocation. -/
def misplaced (s : Sketch) : Bool := s.target.isSome && decide (s.kind ≠ .invocation)

theorem misplaced_eq_false {s : Sketch} :
    s.misplaced = false ↔ (s.target ≠ none → s.kind = .invocation) := by
  cases h : s.target <;> simp [misplaced, h]

/-- Each node but those at the places of the forest is listed once as a child. -/
theorem places_append_children_perm (forest : List Sketch) (first : Nat) :
    (places first forest ++ (nodesFrom first (preorderAll forest)).flatMap (·.children)).Perm
      (List.range' first (preorderAll forest).length) := by
  induction forest using forest_induction generalizing first with
  | nil => simp [places]
  | cons s rest ihchildren ihrest =>
    have hrange : List.range' first (preorderAll (s :: rest)).length =
        first :: (List.range' (first + 1) (preorderAll s.children).length ++
          List.range' (first + s.size) (preorderAll rest).length) := by
      rw [preorderAll_cons, List.length_cons, List.length_append, List.range'_succ,
        ← List.range'_append_1, size_eq, ← Nat.add_assoc, Nat.add_right_comm]
    have hnodes : nodesFrom first (preorderAll (s :: rest)) =
        s.nodeAt first :: (nodesFrom (first + 1) (preorderAll s.children) ++
          nodesFrom (first + s.size) (preorderAll rest)) := by
      rw [preorderAll_cons, nodesFrom_cons, nodesFrom_append, size_eq, ← Nat.add_assoc,
        Nat.add_right_comm]
    rw [hrange, hnodes, List.flatMap_cons, List.flatMap_append, places, List.cons_append]
    refine List.Perm.cons first
      (List.Perm.trans ?_ ((ihchildren (first + 1)).append (ihrest (first + s.size))))
    rw [List.perm_iff_count]
    intro id
    simp only [List.count_append, nodeAt]
    omega

theorem le_node_of_mem_callsFrom {first : Nat} {listing : List Sketch} {call : CallModel}
    (h : call ∈ callsFrom first listing) : first ≤ call.node := by
  obtain ⟨p, hp, hcall⟩ := List.mem_filterMap.1 h
  obtain ⟨t, -, rfl⟩ := Option.map_eq_some_iff.1 hcall
  exact List.le_snd_of_mem_zipIdx hp

/-- The calls for a node are that of the sketch at its place, if there is one. -/
theorem filter_callsFrom (first i : Nat) (listing : List Sketch) :
    (callsFrom first listing).filter (·.node = first + i) =
      (listing[i]?.bind fun s => s.callAt? (first + i)).toList := by
  induction listing generalizing first i with
  | nil => simp
  | cons s listing ih =>
    rw [callsFrom_cons, List.filter_append]
    cases i with
    | zero =>
      have hlater : (callsFrom (first + 1) listing).filter (·.node = first + 0) = [] := by
        rw [List.filter_eq_nil_iff]
        intro call hcall hnode
        have hle := le_node_of_mem_callsFrom hcall
        rw [decide_eq_true_iff] at hnode
        omega
      rw [hlater]
      cases h : s.target <;> simp [callAt?, h]
    | succ i =>
      have he : first + (i + 1) = first + 1 + i := by omega
      rw [he, ih]
      cases h : s.target with
      | none => simp [callAt?, h]
      | some t => simp [callAt?, h]; omega

end Sketch

namespace FileSketch

open Sketch

variable (f : FileSketch)

theorem path_toModel : f.toModel.path = f.path := by rw [toModel_eq]

theorem getElem?_nodes_toModel (i : Nat) :
    f.toModel.nodes[i]? = f.listing[i]?.map fun s => s.nodeAt i := by
  rw [toModel_eq, getElem?_nodesFrom, Nat.zero_add]

theorem length_nodes_toModel : f.toModel.nodes.length = f.listing.length := by
  rw [toModel_eq, length_nodesFrom]

theorem childrenAt_toModel (i : Nat) :
    f.toModel.childrenAt i = match f.listing[i]? with
      | some s => places (i + 1) s.children
      | none => [] := by
  rw [FileModel.childrenAt, getElem?_nodes_toModel]
  cases f.listing[i]? <;> rfl

variable {f} in
/-- Children are listed after their parent and end with it at the latest. -/
theorem exists_of_mem_childrenAt {p c : Nat} (hc : c ∈ f.toModel.childrenAt p) :
    ∃ s t, f.listing[p]? = some s ∧ f.listing[c]? = some t ∧ p < c ∧ c + t.size ≤ p + s.size := by
  rw [childrenAt_toModel] at hc
  cases hp : f.listing[p]? with
  | none => simp [hp] at hc
  | some s =>
    rw [hp] at hc
    obtain ⟨t, ht, hle, hend⟩ := (listedAt_children hp).getElem?_of_mem_places hc
    have hsize := s.size_eq
    exact ⟨s, t, rfl, ht, hle, by omega⟩

theorem targetAt?_toModel (i : Nat) : f.toModel.targetAt? i = f.listing[i]?.bind (·.target) := by
  have hfilter := filter_callsFrom 0 i f.listing
  rw [Nat.zero_add] at hfilter
  rw [FileModel.targetAt?, toModel_eq, hfilter]
  cases f.listing[i]? with
  | none => rfl
  | some s => cases h : s.target <;> simp [callAt?, h]

/-! ## Faults -/

theorem linkFaults_toModel :
    FileModel.linkFaults f.toModel.nodes.length [] f.toModel.links = [] := by
  refine FileModel.linkFaults_eq_nil.2 ⟨?_, ?_, by simp⟩
  · rintro ⟨p, c⟩ hl
    obtain ⟨s, t, -, ht, hlt, -⟩ := exists_of_mem_childrenAt (FileModel.mem_links.1 hl)
    rw [length_nodes_toModel]
    exact ⟨hlt, (List.getElem?_eq_some_iff.1 ht).1⟩
  · rw [FileModel.links, FileModel.map_snd_linksFrom, toModel_eq]
    have hnodup := (places_append_children_perm f.bodies 0).nodup_iff.2 List.nodup_range'
    exact (List.nodup_append.1 hnodup).2.1

theorem filterMap_body_declareFrom (path : Path) (first : Nat) (methods : List MethodSketch) :
    (MethodSketch.declareFrom path first methods).filterMap (·.body) =
      places first (methods.filterMap (·.body)) := by
  induction methods generalizing first with
  | nil => rfl
  | cons m rest ih =>
    cases h : m.body <;> simp [MethodSketch.declareFrom, MethodSketch.declare, h, ih, places]

theorem bodies_toModel : f.toModel.methods.filterMap (·.body) = places 0 f.bodies := by
  rw [toModel_eq, filterMap_body_declareFrom, bodies]

theorem bodyFaults_toModel : f.toModel.methods.filterMap f.toModel.bodyFault? = [] := by
  rw [List.filterMap_eq_nil_iff]
  intro d hd
  cases hb : d.body with
  | none => simp [FileModel.bodyFault?, hb]
  | some body =>
    have hmem : body ∈ places 0 f.bodies := by
      rw [← bodies_toModel]
      exact List.mem_filterMap.2 ⟨d, hd, hb⟩
    obtain ⟨t, ht, -⟩ := (listedAt_preorderAll f.bodies).getElem?_of_mem_places hmem
    have hlt : body < f.listing.length := (List.getElem?_eq_some_iff.1 ht).1
    simp [FileModel.bodyFault?, hb, length_nodes_toModel, hlt]

theorem callFaults_toModel :
    f.toModel.calls.filterMap f.toModel.callFault? =
      f.listing.zipIdx.filterMap fun p =>
        if p.1.misplaced then some (.notAnInvocation f.path p.2) else none := by
  have hcalls : f.toModel.calls = callsFrom 0 f.listing := by rw [toModel_eq]
  rw [hcalls, callsFrom, List.filterMap_filterMap]
  refine List.filterMap_congr fun p hp => ?_
  have hs : f.listing[p.2]? = some p.1 := List.mem_zipIdx_iff_getElem?.1 hp
  cases ht : p.1.target with
  | none => simp [callAt?, misplaced, ht]
  | some t =>
    by_cases hk : p.1.kind = .invocation <;>
      simp [callAt?, misplaced, ht, hk, FileModel.callFault?, FileModel.kindAt?,
        getElem?_nodes_toModel, hs, nodeAt, path_toModel]

/-- Loading fails exactly at the first misplaced target. -/
theorem head?_faults_toModel :
    f.toModel.faults.head? = (f.listing.findIdx? misplaced).map (.notAnInvocation f.path) := by
  rw [FileModel.faults, linkFaults_toModel, bodyFaults_toModel, callFaults_toModel, List.map_nil,
    List.nil_append, List.nil_append, List.head?_filterMap, List.findIdx?_eq_findSome?_zipIdx,
    List.map_findSome?]
  congr 1
  funext p
  simp only [Function.comp_apply]
  split <;> rfl

theorem load_toModel :
    f.toModel.load = match f.listing.findIdx? misplaced with
      | some i => .error (.notAnInvocation f.path i)
      | none => .ok f.toModel.loaded := by
  rw [FileModel.load_eq, head?_faults_toModel]
  cases f.listing.findIdx? misplaced <;> rfl

end FileSketch

/-! ## Reading back -/

def Tree.span? (t : Tree) (id : Nat) : Option Span := (t.node? id).map (·.span)

/-- If each node has what the sketch at its place has and lists the places of its children, then the
sketches are read back at their places. -/
theorem SourceFile.map_sketchAt_places {u : SourceFile} {all : List Sketch}
    (h : ∀ i s, all[i]? = some s →
      u.sketchAt i = { s with children := (Sketch.places (i + 1) s.children).map u.sketchAt })
    {first : Nat} {forest : List Sketch} (hat : Sketch.ListedAt all first forest) :
    (Sketch.places first forest).map u.sketchAt = forest := by
  induction forest using Sketch.forest_induction generalizing first with
  | nil => rfl
  | cons s rest ihchildren ihrest =>
    rw [Sketch.places, List.map_cons, ihrest hat.others, h first s hat.getElem?_first,
      ihchildren hat.children, Sketch.mk_fields]

/-- A file holds a sketch: nodes are numbered in the order of the text, each body is read back, and
so is everything below it, on lines that tell what is below what. -/
structure SourceFile.Encodes (u : SourceFile) (f : FileSketch) : Prop where
  path : u.tree.path = f.path
  generated : u.generated = f.generated
  size : u.tree.size = f.listing.length
  numbered : u.methods.filterMap (·.body) = Sketch.places 0 f.bodies
  bodies : u.methods.map (fun m => m.body.map u.sketchAt) = f.methods.map (·.body)
  sketch : ∀ i s, f.listing[i]? = some s → u.sketchAt i = s
  children : ∀ i s, f.listing[i]? = some s → u.tree.children i = Sketch.places (i + 1) s.children
  span : ∀ i s, f.listing[i]? = some s → u.tree.span? i = some ⟨i + 1, 1, i + s.size, 1⟩
  nested : ∀ p, ∀ c ∈ u.tree.children p, ∃ a b, u.tree.span? p = some a ∧ u.tree.span? c = some b ∧
    a.startLine < b.startLine ∧ b.endLine ≤ a.endLine
  apart : ∀ p, (u.tree.children p).Pairwise fun c d => ∃ a b, u.tree.span? c = some a ∧
    u.tree.span? d = some b ∧ a.endLine < b.startLine

namespace FileSketch

open Sketch

variable {f : FileSketch} {u : SourceFile}

theorem node?_of_load (h : f.toModel.load = .ok u) {i : Nat} {s : Sketch}
    (hs : f.listing[i]? = some s) :
    ∃ n, u.tree.node? i = some n ∧ n.toModel = s.nodeAt i := by
  have hnode := (FileModel.represents_of_load h).node i
  rw [getElem?_nodes_toModel, hs] at hnode
  exact Option.map_eq_some_iff.1 hnode

theorem children_of_load (h : f.toModel.load = .ok u) {i : Nat} {s : Sketch}
    (hs : f.listing[i]? = some s) : u.tree.children i = places (i + 1) s.children := by
  rw [(FileModel.represents_of_load h).children, childrenAt_toModel, hs]

theorem span?_of_load (h : f.toModel.load = .ok u) {i : Nat} {s : Sketch}
    (hs : f.listing[i]? = some s) : u.tree.span? i = some ⟨i + 1, 1, i + s.size, 1⟩ := by
  obtain ⟨n, hn, hmodel⟩ := node?_of_load h hs
  rw [Tree.span?, hn]
  exact congrArg (some ·.span) hmodel

theorem sketchAt_of_load (h : f.toModel.load = .ok u) {i : Nat} {s : Sketch}
    (hs : f.listing[i]? = some s) :
    u.sketchAt i = { s with children := (places (i + 1) s.children).map u.sketchAt } := by
  obtain ⟨n, hn, hmodel⟩ := node?_of_load h hs
  have htarget : u.targets[i]? = s.target := by
    rw [(FileModel.represents_of_load h).target, targetAt?_toModel, hs, Option.bind_some]
  have hkind : n.kind = s.kind := congrArg NodeModel.kind hmodel
  have htext : n.text = s.text := congrArg NodeModel.text hmodel
  rw [SourceFile.sketchAt_eq, (FileModel.linked_of_load h).below_eq, children_of_load h hs, htarget]
  simp [Tree.kind?, Tree.text, hn, hkind, htext]

theorem map_body_declareFrom {g : Nat → Sketch} {path : Path} {first : Nat}
    {methods : List MethodSketch}
    (h : (places first (methods.filterMap (·.body))).map g = methods.filterMap (·.body)) :
    (MethodSketch.declareFrom path first methods).map (fun m => m.body.map g) =
      methods.map (·.body) := by
  induction methods generalizing first with
  | nil => rfl
  | cons m rest ih =>
    cases hb : m.body with
    | none =>
      rw [List.filterMap_cons_none hb] at h
      simp [MethodSketch.declareFrom, MethodSketch.declare, hb, ih h]
    | some s =>
      rw [List.filterMap_cons_some hb, places, List.map_cons, List.cons.injEq] at h
      simp [MethodSketch.declareFrom, MethodSketch.declare, hb, h.1, ih h.2]

theorem nested_of_load (h : f.toModel.load = .ok u) {p c : Nat} (hc : c ∈ u.tree.children p) :
    ∃ a b, u.tree.span? p = some a ∧ u.tree.span? c = some b ∧
      a.startLine < b.startLine ∧ b.endLine ≤ a.endLine := by
  rw [(FileModel.represents_of_load h).children] at hc
  obtain ⟨s, t, hs, ht, hlt, hend⟩ := exists_of_mem_childrenAt hc
  exact ⟨_, _, span?_of_load h hs, span?_of_load h ht, Nat.succ_lt_succ hlt, hend⟩

theorem apart_of_load (h : f.toModel.load = .ok u) (p : Nat) :
    (u.tree.children p).Pairwise fun c d => ∃ a b, u.tree.span? c = some a ∧
      u.tree.span? d = some b ∧
      a.endLine < b.startLine := by
  rw [(FileModel.represents_of_load h).children, childrenAt_toModel]
  cases hs : f.listing[p]? with
  | none => exact .nil
  | some s =>
    have hat := listedAt_children hs
    refine hat.pairwise_places.imp_of_mem fun {c d} hc hd hcd => ?_
    obtain ⟨t, ht, -⟩ := hat.getElem?_of_mem_places hc
    obtain ⟨r, hr, -⟩ := hat.getElem?_of_mem_places hd
    exact ⟨_, _, span?_of_load h ht, span?_of_load h hr, Nat.lt_succ_of_le (hcd t ht)⟩

theorem encodes_of_load (h : f.toModel.load = .ok u) : u.Encodes f := by
  have hrep := FileModel.represents_of_load h
  have hread : ∀ {first forest}, ListedAt f.listing first forest →
      (places first forest).map u.sketchAt = forest :=
    SourceFile.map_sketchAt_places fun i s => sketchAt_of_load h
  refine ⟨?_, ?_, ?_, ?_, ?_, ?_, fun i s => children_of_load h, fun i s => span?_of_load h,
    fun p c => nested_of_load h, apart_of_load h⟩
  · rw [hrep.path, path_toModel]
  · rw [hrep.generated, toModel_eq]
  · rw [← length_nodes_toModel, ← hrep.nodes, List.length_map]
    rfl
  · rw [hrep.methods, bodies_toModel]
  · rw [hrep.methods, toModel_eq]
    exact map_body_declareFrom (hread (listedAt_preorderAll f.bodies))
  · intro i s hs
    rw [sketchAt_of_load h hs, hread (listedAt_children hs), mk_fields]

/-- A file that is lowered from a sketch is loaded exactly if all targets are on invocations, and
the only error is the first target that is not. What is loaded holds the whole sketch. -/
theorem load_toModel_lossless (f : FileSketch) :
    ((∃ u, f.toModel.load = .ok u) ↔ ∀ s ∈ f.listing, s.target ≠ none → s.kind = .invocation) ∧
    (∀ e, f.toModel.load = .error e ↔
      ∃ i, f.listing.findIdx? misplaced = some i ∧ e = .notAnInvocation f.path i) ∧
    ∀ u, f.toModel.load = .ok u → u.Encodes f := by
  refine ⟨?_, ?_, fun u => encodes_of_load⟩
  · have hnone : f.listing.findIdx? misplaced = none ↔
        ∀ s ∈ f.listing, s.target ≠ none → s.kind = .invocation := by
      rw [List.findIdx?_eq_none_iff]
      exact forall₂_congr fun s _ => misplaced_eq_false
    rw [← hnone, load_toModel]
    cases f.listing.findIdx? misplaced <;> simp
  · intro e
    rw [load_toModel]
    cases f.listing.findIdx? misplaced <;> simp [eq_comm]

-- a target on an identifier in the second body is found under the name after those of the first one
example :
    (FileSketch.toModel
      { path := ⟨"A.cs"⟩
        methods :=
          [.method "Load" [.call "Read()"],
            .method "Run" [(Sketch.ident "x").resolvesTo (.user "Load")]] }).load =
      .error (.notAnInvocation ⟨"A.cs"⟩ 5) := rfl

end FileSketch

end MethodRoles
