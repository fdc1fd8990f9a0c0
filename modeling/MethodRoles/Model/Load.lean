import MethodRoles.Model.Basic
import MethodRoles.Syntax.Tree
import Std.Data.HashMap

/-!
# Loading a file model

Loading checks a file model and turns it into a tree and a table of call targets: first the links
between nodes, node by node, then the bodies of the methods, then the calls.
-/
namespace MethodRoles

/-- A file that is ready to be analyzed. -/
structure SourceFile where
  tree : Tree
  generated : Bool := false
  methods : List Method := []
  /-- What the invocations resolve to; those that are missing are unresolved. -/
  targets : Std.HashMap Nat Target := {}

inductive LoadError where
  | link (file : Path) (error : LinkError)
  | unknownBody (file : Path) (method : String) (body : Nat)
  | notAnInvocation (file : Path) (node : Nat)
  deriving DecidableEq, Repr

def LoadError.message : LoadError → String
  | .link file error => file.text ++ ": invalid syntax tree: " ++ error.message
  | .unknownBody file method body =>
    file.text ++ ": body " ++ showNode body ++ " of method '" ++ method ++ "' does not exist"
  | .notAnInvocation file node =>
    file.text ++ ": resolved call " ++ showNode node ++ " is not an invocation node"

namespace Tree

/-- Links the given nodes below `parent`, in order. -/
def attachAll (t : Tree) (parent : Nat) : List Nat → Except LinkError Tree
  | [] => .ok t
  | child :: children =>
    match t.attach parent child with
    | .ok t => t.attachAll parent children
    | .error e => .error e

/-- Makes the links that nodes ask for, the first of which has the name `parent`. -/
def linkFrom (t : Tree) (parent : Nat) : List NodeModel → Except LinkError Tree
  | [] => .ok t
  | n :: nodes =>
    match t.attachAll parent n.children with
    | .ok t => t.linkFrom (parent + 1) nodes
    | .error e => .error e

def ofNodes (path : Path) (nodes : List NodeModel) : Except LinkError Tree :=
  (nodes.foldl (fun (t : Tree) n => t.push n.kind n.text n.span) { path }).linkFrom 0 nodes

end Tree

namespace FileModel

def checkBodies (tree : Tree) : List Method → Except LoadError Unit
  | [] => .ok ()
  | m :: methods =>
    match m.body with
    | none => checkBodies tree methods
    | some body =>
      if body < tree.size then checkBodies tree methods
      else .error (.unknownBody tree.path m.name body)

/-- Enters calls into a table; the last call for a node counts. -/
def enterCalls (tree : Tree) (table : Std.HashMap Nat Target) :
    List CallModel → Except LoadError (Std.HashMap Nat Target)
  | [] => .ok table
  | c :: calls =>
    if tree.hasKind .invocation c.node then enterCalls tree (table.insert c.node c.target) calls
    else .error (.notAnInvocation tree.path c.node)

def load (m : FileModel) : Except LoadError SourceFile :=
  match Tree.ofNodes m.path m.nodes with
  | .error e => .error (.link m.path e)
  | .ok tree =>
    match checkBodies tree m.methods with
    | .error e => .error e
    | .ok () =>
      match enterCalls tree {} m.calls with
      | .error e => .error e
      | .ok targets => .ok { tree, generated := m.generated, methods := m.methods, targets }

end FileModel

def ProgramModel.load (m : ProgramModel) : Except LoadError (List SourceFile) :=
  m.files.mapM FileModel.load

end MethodRoles
