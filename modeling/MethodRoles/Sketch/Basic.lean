import MethodRoles.Call.Target
import MethodRoles.Model.Basic
import MethodRoles.Syntax.Kind
import MethodRoles.Text

/-!
# Sketches

A sketch is a small syntax tree that is written down directly. Calls carry the target that a front
end would have found, so that a sketch stands for syntax and resolved calls at once.
-/
namespace MethodRoles

/-!
## The method that a call text calls last

`Run()` calls `Run`, `this.x.Save(a)` calls `Save`, `Foo<int>()` calls `Foo`, and
`Load(a).ConfigureAwait(false)` calls `ConfigureAwait`.
-/

namespace Callee

/-- Reads a text from its end, with `depth` parentheses to be opened, and gives what comes before
the parenthesis that opens the last of them. The result is in reverse like the text. -/
def beforeOpening? (depth : Nat) : List Char → Option (List Char)
  | [] => none
  | ')' :: cs => beforeOpening? (depth + 1) cs
  | '(' :: cs => if depth ≤ 1 then some cs else beforeOpening? (depth - 1) cs
  | _ :: cs => beforeOpening? depth cs

/-- The text without the argument list at its end, if it has one. -/
def dropArguments (text : List Char) : List Char :=
  match (Text.trimEnd text).reverse with
  | ')' :: cs =>
    match beforeOpening? 1 cs with
    | some head => head.reverse
    | none => text
  | _ => text

/-- The name after the last point, without type arguments. -/
def name (text : List Char) : List Char :=
  let head := (dropArguments text).takeWhile (· ≠ '<')
  Text.trim (head.reverse.takeWhile (· ≠ '.')).reverse

end Callee

/-! ## Sketches of code -/

structure Sketch where
  kind : NodeKind
  text : String := ""
  target : Option Target := none
  children : List Sketch := []
  deriving Inhabited

namespace Sketch

/-- Adds a child at the end. -/
def addChild (s child : Sketch) : Sketch := { s with children := s.children ++ [child] }

/-! ## Targets of calls -/

def resolvesTo (s : Sketch) (t : Target) : Sketch := { s with target := some t }

def calleeName (s : Sketch) : String := String.ofList (Callee.name s.text.toList)

/-- The call goes to a method of the analyzed code. -/
def user (s : Sketch) : Sketch := s.resolvesTo (.user s.calleeName)

/-- The call goes to a member of the given type elsewhere. -/
def external (s : Sketch) (containingNamespace containingType : String) : Sketch :=
  s.resolvesTo (.external containingNamespace containingType s.calleeName)

/-- The call invokes a delegate of the given type. -/
def delegate (s : Sketch) (containingNamespace delegateType : String) : Sketch :=
  s.resolvesTo
    { Target.external containingNamespace delegateType "Invoke" with isDelegateInvoke := true }

/-- The target, if there is one, is virtual. -/
def virtual (s : Sketch) : Sketch :=
  { s with target := s.target.map fun t => { t with isVirtual := true } }

/-! ## Arguments -/

/-- Adds to the first argument list among some children, or to a new one after them. -/
def addToList (argument : Sketch) : List Sketch → List Sketch
  | [] => [{ kind := .argumentList, children := [argument] }]
  | c :: cs =>
    if c.kind = .argumentList then c.addChild argument :: cs else c :: addToList argument cs

/-- Adds an argument to a call. -/
def arg (s argument : Sketch) : Sketch :=
  { s with children :=
      addToList { kind := .argument, text := argument.text, children := [argument] } s.children }

/-! ## Expressions -/

def call (text : String) : Sketch := { kind := .invocation, text }

/-- A binary expression that is given by its text alone. -/
def expr (text : String) : Sketch := { kind := .binaryExpression, text }

def ident (text : String) : Sketch := { kind := .identifier, text }

def literal (text : String) : Sketch := { kind := .literal, text }

def binary (lhs : Sketch) (op : String) (rhs : Sketch) : Sketch :=
  { kind := .binaryExpression, text := lhs.text ++ " " ++ op ++ " " ++ rhs.text,
    children := [lhs, rhs] }

/-! ## Statements -/

/-- An expression becomes a statement of its own. -/
def asStatement (s : Sketch) : Sketch :=
  if s.kind.isStatement then s
  else { kind := .expressionStatement, text := s.text ++ ";", children := [s] }

def block (statements : List Sketch) : Sketch :=
  { kind := .block, children := statements.map asStatement }

def localVariable (text : String) (value : Sketch) : Sketch :=
  { kind := .localDeclaration, text, children := [value] }

def returning (value : Sketch) : Sketch :=
  { kind := .returnStatement, text := "return " ++ value.text ++ ";", children := [value] }

def throwing (value : Sketch) : Sketch :=
  { kind := .throwStatement, text := "throw " ++ value.text ++ ";", children := [value] }

def ifThen (condition : Sketch) (body : List Sketch) : Sketch :=
  { kind := .ifStatement, text := "if (" ++ condition.text ++ ")",
    children := [condition, block body] }

/-- The parts of the header of a `for` loop are direct children of the loop. -/
def forLoop (init condition step : Sketch) (body : List Sketch) : Sketch :=
  { kind := .forLoop, text := "for (; " ++ condition.text ++ ";)",
    children := [init, condition, step, block body] }

def forEach (collection : Sketch) (body : List Sketch) : Sketch :=
  { kind := .forEachLoop, text := "foreach (var item in " ++ collection.text ++ ")",
    children := [collection, block body] }

def tryCatch (body handler : List Sketch) : Sketch :=
  { kind := .tryStatement, text := "try",
    children :=
      [block body, { kind := .catchClause, text := "catch", children := [block handler] }] }

def lambda (body : List Sketch) : Sketch :=
  { kind := .lambda, text := "() => \x7b ... \x7d", children := [block body] }

end Sketch

/-! ## Methods and files -/

structure MethodSketch where
  declaration : Method
  body : Option Sketch := none
  /-- Where the name of the method is declared. -/
  site : Option Span := none
  deriving Inhabited

namespace MethodSketch

def method (name : String) (statements : List Sketch) : MethodSketch :=
  { declaration := { name }, body := some (.block statements) }

/-- A member without a block. -/
def bodiless (name : String) : MethodSketch := { declaration := { name } }

def virtual (m : MethodSketch) : MethodSketch :=
  { m with declaration := { m.declaration with isVirtual := true } }

def ofKind (m : MethodSketch) (kind : MemberKind) : MethodSketch :=
  { m with declaration := { m.declaration with kind } }

def inType (m : MethodSketch) (owningType : String) : MethodSketch :=
  { m with declaration := { m.declaration with owningType } }

/-- The name is declared at the given place and is as wide as its UTF-8 form is long. -/
def declaredAt (m : MethodSketch) (line column : Nat) : MethodSketch :=
  { m with site := some ⟨line, column, line, column + m.declaration.name.utf8ByteSize⟩ }

end MethodSketch

structure FileSketch where
  path : Path
  generated : Bool := false
  methods : List MethodSketch := []
  deriving Inhabited

end MethodRoles
