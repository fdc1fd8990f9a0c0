import MethodRoles.Toml.Scalar

/-!
# Statements of TOML

A document is a sequence of table headers and assignments, each on a line of its own. Arrays and
inline tables may go over several lines, with comments.
-/
namespace MethodRoles.Toml

open Data

/-- A value as it is written: the keys of an inline table are paths. -/
inductive Expr where
  | scalar (v : Value)
  | list (items : List Expr)
  | table (entries : List (List String × Expr))
  deriving Inhabited

inductive Statement where
  | header (path : List String)
  /-- The header of one more element of an array of tables. -/
  | element (path : List String)
  | assignment (path : List String) (value : Expr)

/-- Drops blanks, line breaks and comments. -/
def dropGap (inComment : Bool) : List Char → List Char
  | [] => []
  | c :: cs =>
    if c == '\n' || (c == '\r' && atLineFeed cs) then dropGap false cs
    else if inComment then if isTextChar c then dropGap true cs else c :: cs
    else if isSpace c then dropGap false cs
    else if c == '#' then dropGap true cs
    else c :: cs

/-- What comes after the end of a line, which may hold blanks and a comment. -/
def afterLine? (cs : List Char) : Option (List Char) :=
  let rest := match dropSpaces cs with
    | '#' :: comment => comment.dropWhile isTextChar
    | rest => rest
  match rest with
  | [] => some []
  | '\n' :: cs => some cs
  | '\r' :: '\n' :: cs => some cs
  | _ => none

/-! ## Keys -/

def isBareChar (c : Char) : Bool := c.isAlphanum || c == '_' || c == '-'

def keyPart (cs : List Char) : Option (String × List Char) :=
  match lineString cs with
  | some result => some result
  | none =>
    match cs.takeWhile isBareChar with
    | [] => none
    | bare => some (String.ofList bare, cs.dropWhile isBareChar)

/-- Keys with points between them. -/
def keyParts (cs : List Char) : Option (List String × List Char) :=
  match keyPart cs with
  | none => none
  | some (key, rest) =>
    match dropSpaces rest with
    | '.' :: more =>
      let more := dropSpaces more
      if more.length < cs.length then (keyParts more).map fun (keys, rest) => (key :: keys, rest)
      else none
    | rest => some ([key], rest)
termination_by cs.length

/-- Values are nested to this depth at most, and paths have at most so many keys. -/
def depthLimit : Nat := 80

def keyPath (cs : List Char) : Option (List String × List Char) :=
  (keyParts cs).filter fun (path, _) => path.length ≤ depthLimit

/-- A key path, an equals sign and a value; `gap` drops what may stand between them. -/
def assignment (gap : List Char → List Char) (value : Scanner Expr) (cs : List Char) :
    Option ((List String × Expr) × List Char) :=
  match keyPath cs with
  | none => none
  | some (path, rest) =>
    match gap rest with
    | '=' :: rest => (value (gap rest)).map fun (e, rest) => ((path, e), rest)
    | _ => none

/-! ## Values -/

/-- Items up to a closing bracket, with commas between them and perhaps one after the last; `done`
holds those before, in reverse. -/
def itemsUpTo {α : Type} (close : Char) (item : Scanner α) (done : List α) (cs : List Char) :
    Option (List α × List Char) :=
  match dropGap false cs with
  | [] => none
  | c :: rest =>
    if c == close then some (done.reverse, rest)
    else match item (c :: rest) with
      | none => none
      | some (a, rest) =>
        match dropGap false rest with
        | [] => none
        | c :: rest =>
          if c == close then some ((a :: done).reverse, rest)
          else if c == ',' && rest.length < cs.length then itemsUpTo close item (a :: done) rest
          else none
termination_by cs.length
decreasing_by simp_all

/-- A value in which arrays and inline tables are nested to the given depth at most. -/
def value (depth : Nat) : Scanner Expr := fun cs =>
  match cs with
  | '[' :: rest =>
    match depth with
    | 0 => none
    | depth + 1 =>
      (itemsUpTo ']' (value depth) [] rest).map fun (items, rest) => (.list items, rest)
  | '{' :: rest =>
    match depth with
    | 0 => none
    | depth + 1 =>
      (itemsUpTo '}' (assignment (dropGap false) (value depth)) [] rest).map
        fun (entries, rest) => (.table entries, rest)
  | '"' :: _ | '\'' :: _ => (string cs).map fun (s, rest) => (.scalar (.str s), rest)
  | _ => (scalar cs).map fun (v, rest) => (.scalar v, rest)

/-! ## Documents -/

/-- The path of a header, up to its closing brackets. -/
def headerPath (cs : List Char) : Option (List String × List Char) := keyPath (dropSpaces cs)

def statement (cs : List Char) : Option (Statement × List Char) :=
  match cs with
  | '[' :: '[' :: rest =>
    match headerPath rest with
    | some (path, ']' :: ']' :: rest) => (afterLine? rest).map (.element path, ·)
    | _ => none
  | '[' :: rest =>
    match headerPath rest with
    | some (path, ']' :: rest) => (afterLine? rest).map (.header path, ·)
    | _ => none
  | _ =>
    match assignment dropSpaces (value depthLimit) cs with
    | some ((path, e), rest) => (afterLine? rest).map (.assignment path e, ·)
    | none => none

def statements (done : List Statement) (cs : List Char) : Option (List Statement) :=
  match dropGap false cs with
  | [] => some done.reverse
  | start =>
    match statement start with
    | none => none
    | some (s, rest) => if rest.length < cs.length then statements (s :: done) rest else none
termination_by cs.length

end MethodRoles.Toml
