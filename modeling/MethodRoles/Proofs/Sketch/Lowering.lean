import MethodRoles.Proofs.Sketch.Forest
import MethodRoles.Sketch.Lower

/-!
# What lowering puts down

Lowering only adds to what is there. As long as there is one line for each node, what it adds can be
told from the listing of the sketches alone: the nodes are numbered as they are listed, and a node
that is completed ends where its listing ends.
-/
namespace MethodRoles

namespace Sketch

/-- The node that a sketch becomes under the given name. -/
def nodeAt (s : Sketch) (id : Nat) : NodeModel where
  kind := s.kind
  text := s.text
  span := ⟨id + 1, 1, id + s.size, 1⟩
  children := places (id + 1) s.children

def callAt? (s : Sketch) (id : Nat) : Option CallModel :=
  s.target.map fun target => { node := id, target }

/-- The nodes that the sketches of a listing become, the first of them under the name `first`. -/
def nodesFrom (first : Nat) (listing : List Sketch) : List NodeModel :=
  (listing.zipIdx first).map fun p => p.1.nodeAt p.2

def callsFrom (first : Nat) (listing : List Sketch) : List CallModel :=
  (listing.zipIdx first).filterMap fun p => p.1.callAt? p.2

@[simp] theorem nodesFrom_nil (first : Nat) : nodesFrom first [] = [] := rfl

@[simp] theorem callsFrom_nil (first : Nat) : callsFrom first [] = [] := rfl

theorem nodesFrom_cons (first : Nat) (s : Sketch) (listing : List Sketch) :
    nodesFrom first (s :: listing) = s.nodeAt first :: nodesFrom (first + 1) listing := rfl

theorem callsFrom_cons (first : Nat) (s : Sketch) (listing : List Sketch) :
    callsFrom first (s :: listing) = (s.callAt? first).toList ++ callsFrom (first + 1) listing := by
  rw [callsFrom, List.zipIdx_cons, List.filterMap_cons, callsFrom]
  cases s.callAt? first <;> rfl

theorem nodesFrom_append (first : Nat) (l k : List Sketch) :
    nodesFrom first (l ++ k) = nodesFrom first l ++ nodesFrom (first + l.length) k := by
  rw [nodesFrom, List.zipIdx_append, List.map_append, nodesFrom, nodesFrom]

theorem callsFrom_append (first : Nat) (l k : List Sketch) :
    callsFrom first (l ++ k) = callsFrom first l ++ callsFrom (first + l.length) k := by
  rw [callsFrom, List.zipIdx_append, List.filterMap_append, callsFrom, callsFrom]

@[simp] theorem length_nodesFrom (first : Nat) (listing : List Sketch) :
    (nodesFrom first listing).length = listing.length := by
  rw [nodesFrom, List.length_map, List.length_zipIdx]

theorem getElem?_nodesFrom (first i : Nat) (listing : List Sketch) :
    (nodesFrom first listing)[i]? = listing[i]?.map fun s => s.nodeAt (first + i) := by
  rw [nodesFrom, List.getElem?_map, List.getElem?_zipIdx, Option.map_map]
  rfl

end Sketch

namespace Lowering

/-- One line for each node. -/
def Even (st : Lowering) : Prop := st.line = st.nodes.size

/-- The state with the nodes and calls of a listing added to it. -/
def extend (st : Lowering) (listing : List Sketch) : Lowering where
  line := st.line + listing.length
  nodes := st.nodes ++ (Sketch.nodesFrom st.nodes.size listing).toArray
  calls := st.calls ++ (Sketch.callsFrom st.nodes.size listing).toArray

@[simp] theorem extend_nil (st : Lowering) : st.extend [] = st := by simp [extend]

theorem size_extend (st : Lowering) (listing : List Sketch) :
    (st.extend listing).nodes.size = st.nodes.size + listing.length := by simp [extend]

theorem extend_extend (st : Lowering) (l k : List Sketch) :
    (st.extend l).extend k = st.extend (l ++ k) := by
  simp [extend, Sketch.nodesFrom_append, Sketch.callsFrom_append, Nat.add_assoc]

/-- The state in which the children of a sketch are lowered. -/
def enter (st : Lowering) (s : Sketch) : Lowering where
  line := st.line + 1
  nodes := st.nodes.push { kind := s.kind, text := s.text }
  calls := st.calls ++ (s.callAt? st.nodes.size).toList.toArray

theorem size_enter (st : Lowering) (s : Sketch) : (st.enter s).nodes.size = st.nodes.size + 1 := by
  rw [enter, Array.size_push]

/-- The state in which the node `id`, begun on line `start`, is completed. -/
def complete (st : Lowering) (id start : Nat) (children : List Nat) : Lowering :=
  { st with nodes := st.nodes.modify id fun n =>
    { n with children, span := ⟨start, 1, st.line, 1⟩ } }

theorem Even.extend {st : Lowering} (h : st.Even) (listing : List Sketch) :
    (st.extend listing).Even := by
  rw [Even, size_extend, ← h]
  rfl

theorem Even.enter {st : Lowering} (h : st.Even) (s : Sketch) : (st.enter s).Even := by
  rw [Even, size_enter, ← h]
  rfl

/-- The node that was put down before the others is the one that is completed. -/
theorem modify_push_append (a b : Array NodeModel) (n : NodeModel) (g : NodeModel → NodeModel) :
    (a.push n ++ b).modify a.size g = a.push (g n) ++ b := by
  apply Array.ext_getElem?
  intro i
  rw [Array.getElem?_modify, Array.getElem?_append, Array.getElem?_append, Array.size_push,
    Array.size_push, Array.getElem?_push, Array.getElem?_push]
  by_cases hi : a.size = i
  · subst hi
    simp
  · have hi' : i ≠ a.size := Ne.symm hi
    simp only [hi, hi', if_false]

/-- A sketch is put down by entering it, putting down its children and completing it. -/
theorem complete_extend_enter {st : Lowering} (h : st.Even) (s : Sketch) :
    ((st.enter s).extend (Sketch.preorderAll s.children)).complete st.nodes.size (st.line + 1)
      (Sketch.places (st.nodes.size + 1) s.children) = st.extend s.preorder := by
  have hline : st.line = st.nodes.size := h
  simp only [complete, extend, enter, Array.size_push, modify_push_append, Sketch.preorder_eq,
    Sketch.nodesFrom_cons, Sketch.callsFrom_cons, Sketch.nodeAt, Sketch.size_eq, List.length_cons,
    hline, Lowering.mk.injEq]
  refine ⟨by omega, ?_, ?_⟩
  · simp [Nat.add_assoc, Nat.add_comm 1]
  · rw [← List.append_toArray, ← Array.append_assoc]

end Lowering

namespace Sketch

theorem run_lowerAll_nil (st : Lowering) : (lowerAll []).run st = ([], st) := by
  rw [lowerAll]
  rfl

theorem run_lowerAll_cons (s : Sketch) (rest : List Sketch) (st : Lowering) :
    (lowerAll (s :: rest)).run st =
      let first := s.lower.run st
      let others := (lowerAll rest).run first.2
      (first.1 :: others.1, others.2) := by
  rw [lowerAll]
  rfl

theorem run_lower_enter (s : Sketch) (st : Lowering) :
    s.lower.run st =
      let below := (lowerAll s.children).run (st.enter s)
      (st.nodes.size, below.2.complete st.nodes.size (st.line + 1) below.1) := by
  obtain ⟨kind, text, target, children⟩ := s
  rw [lower]
  cases target with
  | none =>
    simp only [Lowering.enter, callAt?, Option.map_none, Option.toList_none, Array.append_empty]
    rfl
  | some t => rfl

/-- If the children of a sketch are put down as they are listed, then so is the whole sketch. -/
theorem run_lower_of_children {s : Sketch} {st : Lowering} (h : st.Even)
    (hbelow : (lowerAll s.children).run (st.enter s) =
      (places (st.enter s).nodes.size s.children, (st.enter s).extend (preorderAll s.children))) :
    s.lower.run st = (st.nodes.size, st.extend s.preorder) := by
  rw [Lowering.size_enter] at hbelow
  simp only [run_lower_enter, hbelow, Lowering.complete_extend_enter h]

/-- Lowering a forest adds its listing and gives the places of its sketches. -/
theorem run_lowerAll (forest : List Sketch) {st : Lowering} (h : st.Even) :
    (lowerAll forest).run st = (places st.nodes.size forest, st.extend (preorderAll forest)) := by
  induction forest using forest_induction generalizing st with
  | nil => rw [run_lowerAll_nil, places, preorderAll_nil, Lowering.extend_nil]
  | cons s rest ihchildren ihrest =>
    have hs := run_lower_of_children h (ihchildren (h.enter s))
    have hrest := ihrest (h.extend s.preorder)
    rw [Lowering.size_extend, Lowering.extend_extend] at hrest
    simp only [run_lowerAll_cons, hs, hrest, places, preorderAll, size]

theorem run_lower (s : Sketch) {st : Lowering} (h : st.Even) :
    s.lower.run st = (st.nodes.size, st.extend s.preorder) :=
  run_lower_of_children h (run_lowerAll s.children (h.enter s))

end Sketch

/-! ## Files -/

namespace MethodSketch

/-- The declarations of methods whose bodies come one after another, the first of them at
`first`. -/
def declareFrom (path : Path) (first : Nat) : List MethodSketch → List Method
  | [] => []
  | m :: rest =>
    match m.body with
    | none => m.declare path none :: declareFrom path first rest
    | some s => m.declare path (some first) :: declareFrom path (first + s.size) rest

theorem run_lower_none {m : MethodSketch} (hb : m.body = none) (path : Path) (st : Lowering) :
    (m.lower path).run st = (m.declare path none, st) := by
  rw [MethodSketch.lower, hb]
  rfl

theorem run_lower_some {m : MethodSketch} {s : Sketch} (hb : m.body = some s) (path : Path)
    {st : Lowering} (h : st.Even) :
    (m.lower path).run st = (m.declare path (some st.nodes.size), st.extend s.preorder) := by
  have hbody : (m.lower path).run st =
      let body := s.lower.run st
      (m.declare path (some body.1), body.2) := by
    rw [MethodSketch.lower, hb]
    rfl
  simp only [hbody, s.run_lower h]

theorem run_mapM_lower (path : Path) (methods : List MethodSketch) {st : Lowering} (h : st.Even) :
    (methods.mapM (MethodSketch.lower path)).run st =
      (declareFrom path st.nodes.size methods,
        st.extend (Sketch.preorderAll (methods.filterMap (·.body)))) := by
  induction methods generalizing st with
  | nil =>
    rw [List.mapM_nil, List.filterMap_nil, Sketch.preorderAll_nil, Lowering.extend_nil]
    rfl
  | cons m rest ih =>
    have hcons : ((m :: rest).mapM (MethodSketch.lower path)).run st =
        let first := (m.lower path).run st
        let others := (rest.mapM (MethodSketch.lower path)).run first.2
        (first.1 :: others.1, others.2) := by
      rw [List.mapM_cons]
      rfl
    cases hb : m.body with
    | none => simp only [hcons, run_lower_none hb, ih h, declareFrom, hb, List.filterMap_cons]
    | some s =>
      have hrest := ih (h.extend s.preorder)
      rw [Lowering.size_extend, Lowering.extend_extend] at hrest
      simp only [hcons, run_lower_some hb path h, hrest, declareFrom, hb, List.filterMap_cons,
        Sketch.preorderAll, Sketch.size]

end MethodSketch

namespace FileSketch

def bodies (f : FileSketch) : List Sketch := f.methods.filterMap (·.body)

/-- All sketches of a file, in the order of the text. -/
def listing (f : FileSketch) : List Sketch := Sketch.preorderAll f.bodies

theorem toModel_eq (f : FileSketch) :
    f.toModel =
      { path := f.path
        generated := f.generated
        nodes := Sketch.nodesFrom 0 f.listing
        methods := MethodSketch.declareFrom f.path 0 f.methods
        calls := Sketch.callsFrom 0 f.listing } := by
  have heven : ({} : Lowering).Even := rfl
  have hrun := MethodSketch.run_mapM_lower f.path f.methods heven
  simp [toModel, hrun, Lowering.extend, listing, bodies]

end FileSketch

end MethodRoles
