import MethodRoles.Data
import MethodRoles.Json.Token

/-!
# Reading JSON

The tokens of a text are read by a machine with a stack of the arrays and objects that are still
open, so that a value may be nested to any depth. A text is exactly one value.
-/
namespace MethodRoles.Json

open Data

/-- An open array or object. Its items come in reverse; a key is missing when its text is. -/
inductive Frame where
  | array (items : List Value)
  | member (members : List (Option String × Value)) (key : Option String)

/-- What has been read and what may come next, inside the given open frames. -/
inductive State where
  /-- A value has to come. -/
  | expectValue (frames : List Frame)
  /-- An array was opened: a value or the closing bracket has to come. -/
  | openedArray (frames : List Frame)
  /-- An object was opened: a key or the closing brace has to come. -/
  | openedObject (frames : List Frame)
  /-- A key has to come. -/
  | expectKey (members : List (Option String × Value)) (frames : List Frame)
  /-- The colon after a key has to come. -/
  | expectColon (members : List (Option String × Value)) (key : Option String) (frames : List Frame)
  /-- A value has ended. -/
  | ended (v : Value) (frames : List Frame)

/-- The object with the given members in reverse. -/
def object (members : List (Option String × Value)) : Value :=
  match members.reverse.mapM fun (key, v) => key.map (·, v) with
  | some members => .obj members
  | none => .void

def textValue (codes : List Nat) : Value :=
  match textOf? codes with
  | some s => .str s
  | none => .void

def readValue (frames : List Frame) : Token → Option State
  | .scalar v => some (.ended v frames)
  | .text codes => some (.ended (textValue codes) frames)
  | .openBracket => some (.openedArray frames)
  | .openBrace => some (.openedObject frames)
  | _ => none

def readKey (members : List (Option String × Value)) (frames : List Frame) : Token → Option State
  | .text codes => some (.expectColon members (textOf? codes) frames)
  | _ => none

def State.read (t : Token) : State → Option State
  | .expectValue frames => readValue frames t
  | .openedArray frames =>
    match t with
    | .closeBracket => some (.ended (.arr []) frames)
    | t => readValue (.array [] :: frames) t
  | .openedObject frames =>
    match t with
    | .closeBrace => some (.ended (.obj []) frames)
    | t => readKey [] frames t
  | .expectKey members frames => readKey members frames t
  | .expectColon members key frames =>
    match t with
    | .colon => some (.expectValue (.member members key :: frames))
    | _ => none
  | .ended v (.array items :: frames) =>
    match t with
    | .comma => some (.expectValue (.array (v :: items) :: frames))
    | .closeBracket => some (.ended (.arr (v :: items).reverse) frames)
    | _ => none
  | .ended v (.member members key :: frames) =>
    match t with
    | .comma => some (.expectKey ((key, v) :: members) frames)
    | .closeBrace => some (.ended (object ((key, v) :: members)) frames)
    | _ => none
  | .ended _ [] => none

def readTokens (state : State) : List Token → Option State
  | [] => some state
  | t :: ts =>
    match state.read t with
    | some state => readTokens state ts
    | none => none

def read? (text : String) : Option Value :=
  match (tokens? text.toList).bind (readTokens (.expectValue [])) with
  | some (.ended v []) => some v
  | _ => none

/-- In JSON a record written as a list has no further elements, and a variant holds `null`. -/
def dialect : Dialect where
  surplus := false
  skips _ := true
  isUnit
    | .null => true
    | _ => false

end MethodRoles.Json
