import MethodRoles.Text

/-!
# Places in source files

A path is kept exactly as it was written. Two paths name the same place when their components agree:
repeated slashes, a final slash and `.` components that do not come first carry no meaning, and `..`
is a component like any other.
-/
namespace MethodRoles

structure Path where
  text : String
  deriving DecidableEq, Repr, Inhabited

namespace Path

inductive Component where
  | root
  | here
  | up
  | name (s : List Char)
  deriving DecidableEq, Repr

def isAbsolute (p : Path) : Bool := p.text.toList.head? = some '/'

/-- The component that a piece between slashes stands for, if it stands for one. -/
def pieceComponent? : List Char → Option Component
  | [] => none
  | ['.'] => none
  | ['.', '.'] => some .up
  | s => some (.name s)

def components (p : Path) : List Component :=
  let pieces := Text.segments '/' p.text.toList
  let start :=
    if p.isAbsolute then [.root]
    else if pieces.head? = some ['.'] then [.here]
    else []
  start ++ pieces.filterMap pieceComponent?

/-- Whether two paths have the same components. -/
def same (p q : Path) : Bool := p.components = q.components

/-- What comes before the components that can be removed: a slash, a leading `.`, or nothing. -/
def splitAnchor : List Char → List Char × List Char
  | '/' :: body => (['/'], body)
  | ['.'] => (['.'], [])
  | '.' :: '/' :: body => (['.'], '/' :: body)
  | body => ([], body)

/-- Drops slashes and `.` components from the end of a body that is given in reverse. -/
def dropIdle : List Char → List Char
  | '/' :: rest => dropIdle rest
  | ['.'] => []
  | '.' :: '/' :: rest => dropIdle rest
  | rest => rest

/-- The path without its last component and the slashes and `.` components next to it. A leading `.`
gives the empty path; a lone slash and the empty path have no parent. -/
def parent? (p : Path) : Option Path :=
  let (anchor, body) := splitAnchor p.text.toList
  match dropIdle body.reverse with
  | [] => if anchor = ['.'] then some ⟨""⟩ else none
  | last => some ⟨String.ofList (anchor ++ (dropIdle (last.dropWhile (· ≠ '/'))).reverse)⟩

/-- The path itself and its successive parents, at most `limit` paths in all. -/
def ancestors (p : Path) : Nat → List Path
  | 0 => []
  | limit + 1 => p :: match p.parent? with
    | some parent => parent.ancestors limit
    | none => []

/-- The place that `q` names when it is read from `p`. -/
def join (p q : Path) : Path :=
  if q.isAbsolute then q
  else match p.text.toList.getLast? with
    | none => q
    | some '/' => ⟨p.text ++ q.text⟩
    | some _ => ⟨p.text ++ "/" ++ q.text⟩

end Path

/-! ## Locations -/

/-- A stretch of a source file, by lines and columns. -/
structure Span where
  startLine : Nat := 0
  startColumn : Nat := 0
  endLine : Nat := 0
  endColumn : Nat := 0
  deriving DecidableEq, Repr, Inhabited

structure Location where
  file : Path
  span : Span := {}
  deriving DecidableEq, Repr, Inhabited

/-- A location is shown by its file and the line and column where it starts. -/
def Location.display (l : Location) : String :=
  l.file.text ++ ":" ++ toString l.span.startLine ++ ":" ++ toString l.span.startColumn

/-- The first of the locations that lies in the given file. -/
def Location.firstIn? (locations : List Location) (file : Path) : Option Location :=
  locations.find? (·.file.same file)

end MethodRoles
