import MethodRoles.Text

/-!
# Data trees

The data that a text in one of the data formats stands for. Program models and configurations are
decoded from such trees, so that each of them has one set of decoding rules for all formats.
-/
namespace MethodRoles.Data

/-- A data tree. Numbers that are not natural are kept as they were written, since no field of a
record holds one. `void` is well-formed and stands for nothing, as a string that names half of a
surrogate pair or a number beyond all ranges: it cannot be decoded. -/
inductive Value where
  | null
  | bool (b : Bool)
  | nat (n : Nat)
  | number (literal : String)
  | str (s : String)
  | void
  | arr (items : List Value)
  | obj (members : List (String × Value))
  deriving Inhabited, Repr

namespace Value

mutual

/-- Whether nothing in a data tree is void. -/
def isSolid : Value → Bool
  | .void => false
  | .arr items => allSolid items
  | .obj members => membersSolid members
  | _ => true

def allSolid : List Value → Bool
  | [] => true
  | v :: rest => v.isSolid && allSolid rest

def membersSolid : List (String × Value) → Bool
  | [] => true
  | (_, v) :: rest => v.isSolid && membersSolid rest

end

/-- A list of texts as data. -/
def strs (texts : List String) : Value := .arr (texts.map .str)

def ofOption {α : Type} (encode : α → Value) : Option α → Value
  | none => .null
  | some a => encode a

end Value

/-!
## Decoding records

A record is written as an object, whose keys come in any order, or as a list of its fields in the
order of their declaration. Unknown keys are skipped, if the format can skip their values; a known
key may come only once. Decoding fails without a reason: the readers of the formats only tell that a
text does not decode.
-/

abbrev Decoder (α : Type) := Value → Option α

/-- What differs between the data formats once a text has become a data tree. -/
structure Dialect where
  /-- A record written as a list may have more elements than the record has fields. -/
  surplus : Bool
  /-- Which values may stand under a key that a record does not know. -/
  skips : Value → Bool
  /-- What stands for "nothing more" after the name of a variant. -/
  isUnit : Value → Bool

namespace Decode

def bool : Decoder Bool
  | .bool b => some b
  | _ => none

def text : Decoder String
  | .str s => some s
  | _ => none

/-- A natural number below `limit`. -/
def below (limit : Nat) : Decoder Nat
  | .nat n => if n < limit then some n else none
  | _ => none

def word : Decoder Nat := below Text.wordLimit

def list {α : Type} (item : Decoder α) : Decoder (List α)
  | .arr items => items.mapM item
  | _ => none

def nullable {α : Type} (item : Decoder α) : Decoder (Option α)
  | .null => some none
  | v => some <$> item v

/-- One of finitely many names, alone or as the only key of an object that holds nothing more. -/
def variant {α : Type} (dialect : Dialect) (ofName? : String → Option α) : Decoder α
  | .str name => ofName? name
  | .obj [(name, v)] => if dialect.isUnit v then ofName? name else none
  | _ => none

end Decode

/-- The fields of a record that are still to be read. -/
inductive Fields where
  | named (members : List (String × Value))
  | listed (elements : List Value)

abbrev FieldReader := StateT Fields Option

namespace FieldReader

/-- Reads one field. `unnamed` is its value when an object lacks the key, `unlisted` when a list has
ended; without such a value the field is required. -/
def field {α : Type} (key : String) (decode : Decoder α) (unnamed unlisted : Option α) :
    FieldReader α
  | .named members =>
    match members.filter (·.1 == key) with
    | [] => unnamed.map (·, .named members)
    | [(_, v)] => (decode v).map (·, .named (members.filter (·.1 != key)))
    | _ => none
  | .listed [] => unlisted.map (·, .listed [])
  | .listed (v :: rest) => (decode v).map (·, .listed rest)

def required {α : Type} (key : String) (decode : Decoder α) : FieldReader α :=
  field key decode none none

def withDefault {α : Type} (key : String) (decode : Decoder α) (default : α) : FieldReader α :=
  field key decode (some default) (some default)

end FieldReader

/-- Whether a record may leave these fields unread. -/
def Dialect.allows (dialect : Dialect) : Fields → Bool
  | .named unknown => unknown.all fun (_, v) => dialect.skips v
  | .listed rest => dialect.surplus || rest.isEmpty

/-- Reads all fields of a record in the order of their declaration. -/
def FieldReader.readAll {α : Type} (reader : FieldReader α) (dialect : Dialect) (fields : Fields) :
    Option α :=
  match reader fields with
  | some (a, rest) => if dialect.allows rest then some a else none
  | none => none

/-- Decodes a record from an object or a list. -/
def Decode.record {α : Type} (dialect : Dialect) (reader : FieldReader α) : Decoder α
  | .obj members => reader.readAll dialect (.named members)
  | .arr elements => reader.readAll dialect (.listed elements)
  | _ => none

end MethodRoles.Data
