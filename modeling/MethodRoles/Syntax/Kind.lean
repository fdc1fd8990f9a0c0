/-!
# Kinds of syntax nodes

Only a few kinds matter to the analysis: blocks, invocations, binary expressions and `for` loops.
The others are told apart for the sake of the texts that are made from them.
-/
namespace MethodRoles

inductive NodeKind where
  | block
  | expressionStatement
  | localDeclaration
  | returnStatement
  | throwStatement
  | ifStatement
  | elseClause
  | forLoop
  | forEachLoop
  | whileLoop
  | doLoop
  | switchStatement
  | tryStatement
  | catchClause
  | finallyClause
  | usingStatement
  | localFunction
  | lambda
  | invocation
  | memberAccess
  | argumentList
  | argument
  | binaryExpression
  | unaryExpression
  | assignment
  | objectCreation
  | await
  | identifier
  | literal
  | interpolatedString
  | other
  deriving DecidableEq, Repr, Inhabited

namespace NodeKind

/-- The name of a kind in program models. -/
def name : NodeKind → String
  | block => "block"
  | expressionStatement => "expression_statement"
  | localDeclaration => "local_declaration"
  | returnStatement => "return"
  | throwStatement => "throw"
  | ifStatement => "if"
  | elseClause => "else"
  | forLoop => "for"
  | forEachLoop => "for_each"
  | whileLoop => "while"
  | doLoop => "do"
  | switchStatement => "switch"
  | tryStatement => "try"
  | catchClause => "catch"
  | finallyClause => "finally"
  | usingStatement => "using"
  | localFunction => "local_function"
  | lambda => "lambda"
  | invocation => "invocation"
  | memberAccess => "member_access"
  | argumentList => "argument_list"
  | argument => "argument"
  | binaryExpression => "binary_expression"
  | unaryExpression => "unary_expression"
  | assignment => "assignment"
  | objectCreation => "object_creation"
  | await => "await"
  | identifier => "identifier"
  | literal => "literal"
  | interpolatedString => "interpolated_string"
  | other => "other"

def all : List NodeKind :=
  [block, expressionStatement, localDeclaration, returnStatement, throwStatement, ifStatement,
    elseClause, forLoop, forEachLoop, whileLoop, doLoop, switchStatement, tryStatement, catchClause,
    finallyClause, usingStatement, localFunction, lambda, invocation, memberAccess, argumentList,
    argument, binaryExpression, unaryExpression, assignment, objectCreation, await, identifier,
    literal, interpolatedString, other]

def ofName? (s : String) : Option NodeKind := all.find? (·.name == s)

theorem ofName?_name (k : NodeKind) : ofName? k.name = some k := by cases k <;> rfl

/-- Whether a node of this kind is a statement on its own. -/
def isStatement : NodeKind → Bool
  | block | expressionStatement | localDeclaration | returnStatement | throwStatement | ifStatement
  | forLoop | forEachLoop | whileLoop | doLoop | switchStatement | tryStatement | usingStatement
  | localFunction => true
  | _ => false

end NodeKind

end MethodRoles
