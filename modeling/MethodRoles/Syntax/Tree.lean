import MethodRoles.Location
import MethodRoles.Syntax.Kind

/-!
# Syntax trees

The nodes of a file stand in an array and are named by their positions. A tree grows by adding nodes
and by linking a node below an earlier one that becomes its parent. A link that would break the tree
is refused, so that links always point forward and a node has one parent at most.
-/
namespace MethodRoles

/-- Names of nodes fit into 32 bits. -/
def nodeLimit : Nat := Nat.pow 2 32

def showNode (id : Nat) : String := "#" ++ toString id

structure Node where
  kind : NodeKind
  text : String := ""
  span : Span := {}
  parent : Option Nat := none
  children : List Nat := []
  deriving DecidableEq, Repr, Inhabited

structure Tree where
  path : Path
  nodes : Array Node := #[]
  deriving DecidableEq, Repr, Inhabited

inductive LinkError where
  | unknownNode (id : Nat)
  | outOfOrder (parent child : Nat)
  | multipleParents (child existing parent : Nat)
  deriving DecidableEq, Repr

def LinkError.message : LinkError → String
  | .unknownNode id => "node " ++ showNode id ++ " does not exist"
  | .outOfOrder parent child =>
    "node " ++ showNode child ++ " listed as child of " ++ showNode parent ++
      " must come after its parent"
  | .multipleParents child existing parent =>
    "node " ++ showNode child ++ " already has parent " ++ showNode existing ++
      ", cannot attach to " ++ showNode parent

namespace Tree

def size (t : Tree) : Nat := t.nodes.size

def node? (t : Tree) (id : Nat) : Option Node := t.nodes[id]?

/-- The children of a node in order; a node that does not exist has none. -/
def children (t : Tree) (id : Nat) : List Nat :=
  match t.node? id with
  | some n => n.children
  | none => []

def parent? (t : Tree) (id : Nat) : Option Nat := (t.node? id).bind (·.parent)

def hasKind (t : Tree) (kind : NodeKind) (id : Nat) : Bool := (t.node? id).any (·.kind = kind)

def text (t : Tree) (id : Nat) : String :=
  match t.node? id with
  | some n => n.text
  | none => ""

/-- Adds a node without links; its name is the size of the tree before. -/
def push (t : Tree) (kind : NodeKind) (text : String) (span : Span) : Tree :=
  { t with nodes := t.nodes.push { kind, text, span } }

/-- Links `child` below `parent`, after the children that are there already. -/
def attach (t : Tree) (parent child : Nat) : Except LinkError Tree :=
  match t.node? parent, t.node? child with
  | none, _ => .error (.unknownNode parent)
  | some _, none => .error (.unknownNode child)
  | some _, some c =>
    if child ≤ parent then .error (.outOfOrder parent child)
    else match c.parent with
      | some existing => .error (.multipleParents child existing parent)
      | none => .ok { t with
          nodes :=
        (t.nodes.modify parent fun n => { n with children := n.children ++ [child] }).modify
            child fun n => { n with parent := some parent } }

@[simp] theorem size_push (t : Tree) (kind : NodeKind) (text : String) (span : Span) :
    (t.push kind text span).size = t.size + 1 := by
  simp [size, push]

/-- A binary expression counts as computing, unless it stands in the header of a `for` loop: in a
`for` loop the header's parts are direct children. -/
def isComputed (t : Tree) (id : Nat) : Bool :=
  t.hasKind .binaryExpression id && !(t.parent? id).any (t.hasKind .forLoop)

/-! ## Going down

A search goes down to children that come after their parent. These are all children in a tree that
was built by `push` and `attach`; the condition makes every descent end. -/

def below (t : Tree) (id : Nat) : List Nat :=
  (t.children id).filter fun c => id < c && c < t.size

theorem mem_below {t : Tree} {id c : Nat} (h : c ∈ t.below id) : id < c ∧ c < t.size := by
  simp only [below, List.mem_filter, Bool.and_eq_true, decide_eq_true_eq] at h
  exact h.2

/-- How many steps it takes to walk over a node and all that is below it. -/
def weight (t : Tree) (id : Nat) : Nat :=
  1 + (t.below id).attach.foldr (fun c n => t.weight c.1 + n) 0
termination_by t.size - id
decreasing_by have := mem_below c.2; omega

/-- How many steps it takes to walk over several nodes and all that is below them. -/
def weights (t : Tree) (ids : List Nat) : Nat := ids.foldr (fun id n => t.weight id + n) 0

theorem weight_eq (t : Tree) (id : Nat) : t.weight id = 1 + t.weights (t.below id) := by
  rw [weight, weights, ← List.foldr_attach (l := t.below id) (f := fun c n => t.weight c + n)]

end Tree

end MethodRoles
