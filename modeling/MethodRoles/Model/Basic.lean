import MethodRoles.Call.Target
import MethodRoles.Location
import MethodRoles.Syntax.Kind

/-!
# Program models

A program model is what a front end knows of a program: for each file its syntax nodes, its methods
and the targets that its calls resolve to.
-/
namespace MethodRoles

/-! ## Methods -/

inductive MemberKind where
  | method
  | constructor
  | accessor
  | operator
  | initializer
  deriving DecidableEq, Repr, Inhabited

namespace MemberKind

/-- The name of a member kind in program models. -/
def name : MemberKind → String
  | method => "method"
  | constructor => "constructor"
  | accessor => "accessor"
  | operator => "operator"
  | initializer => "initializer"

def all : List MemberKind := [method, constructor, accessor, operator, initializer]

def ofName? (s : String) : Option MemberKind := all.find? (·.name == s)

theorem ofName?_name (k : MemberKind) : ofName? k.name = some k := by cases k <;> rfl

/-- Only an initializer is no method of some sort. -/
def isMethodLike (k : MemberKind) : Bool := k ≠ initializer

end MemberKind

/-- The declaration of a method; its body is a node of the tree of its file. -/
structure Method where
  name : String
  kind : MemberKind := .method
  isVirtual : Bool := false
  owningType : String := ""
  locations : List Location := []
  body : Option Nat := none
  deriving DecidableEq, Repr, Inhabited

/-- Where the method is declared in the given file. -/
def Method.locationIn? (m : Method) (file : Path) : Option Location :=
  Location.firstIn? m.locations file

/-! ## Models -/

structure NodeModel where
  kind : NodeKind
  text : String := ""
  span : Span := {}
  children : List Nat := []
  deriving DecidableEq, Repr, Inhabited

structure CallModel where
  node : Nat
  target : Target
  deriving DecidableEq, Repr, Inhabited

structure FileModel where
  path : Path
  generated : Bool := false
  nodes : List NodeModel
  methods : List Method := []
  calls : List CallModel := []
  deriving DecidableEq, Repr, Inhabited

structure ProgramModel where
  files : List FileModel
  deriving DecidableEq, Repr, Inhabited

end MethodRoles
