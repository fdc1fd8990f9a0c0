import MethodRoles.Syntax.Tree

/-!
# Building trees step by step

A builder holds a tree and changes it in place. Each step adds a node or asks for a link; a link may
be refused, and the next step goes on with the tree that the refused one has left behind.
-/
namespace MethodRoles

inductive BuildStep where
  | push (kind : NodeKind) (text : String) (span : Span)
  | attach (parent child : Nat)
  deriving DecidableEq, Repr

/-- What is done to a tree in place, and may be refused. -/
abbrev Build (α : Type) := ExceptT LinkError (StateM Tree) α

namespace Build

/-- Adds a node without links and gives its name. -/
def push (kind : NodeKind) (text : String) (span : Span) : Build Nat := do
  let t ← get
  set (t.push kind text span)
  return t.size

/-- Changes what is stored for a node. -/
def modifyNode (id : Nat) (f : Node → Node) : Build Unit :=
  modify fun t => { t with nodes := t.nodes.modify id f }

/-- Links `child` below `parent`: four checks, then one change to each of the two nodes. -/
def attach (parent child : Nat) : Build Unit := do
  let t ← get
  if t.size ≤ parent then throw (.unknownNode parent)
  if t.size ≤ child then throw (.unknownNode child)
  if child ≤ parent then throw (.outOfOrder parent child)
  match t.parent? child with
  | some existing => throw (.multipleParents child existing parent)
  | none =>
    modifyNode child fun n => { n with parent := some parent }
    modifyNode parent fun n => { n with children := n.children ++ [child] }

/-- Carries out a step; a new node is answered by its name. -/
def step : BuildStep → Build (Option Nat)
  | .push kind text span => return some (← push kind text span)
  | .attach parent child => do
    attach parent child
    return none

end Build

/-- What a step answers, and the tree after it. -/
def Tree.perform (t : Tree) (s : BuildStep) : Except LinkError (Option Nat) × Tree :=
  (Build.step s).run.run t

/-- The tree after all steps, refused ones included. -/
def Tree.performAll (t : Tree) (steps : List BuildStep) : Tree :=
  steps.foldl (fun t s => (t.perform s).2) t

end MethodRoles
