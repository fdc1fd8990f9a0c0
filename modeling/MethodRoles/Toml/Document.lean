import MethodRoles.Data
import MethodRoles.Toml.Statement

/-!
# TOML documents

The statements of a document build up a tree of tables. A table is made by its header, by the header
of a table below it, or by a dotted key; what made it decides who may add to it.
-/
namespace MethodRoles.Toml

open Data

/-- What a table was made by. -/
inductive Origin where
  | header
  /-- The header of a table below it; a header of its own may still come. -/
  | implied
  /-- A dotted key; only dotted keys may add to it. -/
  | dotted
  deriving DecidableEq, Repr

inductive Item where
  /-- A value that nothing can be added to. -/
  | leaf (v : Value)
  | table (origin : Origin) (entries : List (String × Item))
  /-- An array of tables, the last one first. -/
  | tables (rows : List (List (String × Item)))
  deriving Inhabited

abbrev Entries := List (String × Item)

namespace Entries

def get? (es : Entries) (key : String) : Option Item := (es.find? (·.1 == key)).map (·.2)

def replace (es : Entries) (key : String) (item : Item) : Entries :=
  es.map fun e => if e.1 == key then (key, item) else e

/-- Follows a path through tables, making those that are missing, and changes the table at its end.
A dotted path does not enter a table that has a header. -/
def update (dotted : Bool) (change : Origin → Entries → Option Entries) :
    List String → Origin → Entries → Option Entries
  | [], origin, es => change origin es
  | key :: path, _, es =>
    match get? es key with
    | none =>
      let origin := if dotted then .dotted else .implied
      (update dotted change path origin []).map fun sub => es ++ [(key, .table origin sub)]
    | some (.leaf _) => none
    | some (.table origin sub) =>
      if dotted && origin = .header then none
      else (update dotted change path origin sub).map fun sub => replace es key (.table origin sub)
    | some (.tables []) => none
    | some (.tables (row :: rows)) =>
      (update dotted change path .header row).map fun row => replace es key (.tables (row :: rows))

/-- Gives a value to a key, which may be dotted and must be new. -/
def assign (path : List String) (v : Value) (es : Entries) : Option Entries :=
  match path.getLast? with
  | none => none
  | some key =>
    let change (origin : Origin) (es : Entries) : Option Entries :=
      if path.length > 1 && origin ≠ .dotted then none
      else match get? es key with
        | some _ => none
        | none => some (es ++ [(key, .leaf v)])
    update true change path.dropLast .header es

/-- Opens the table that a header names. -/
def openTable (path : List String) (es : Entries) : Option Entries :=
  match path.getLast? with
  | none => none
  | some key =>
    let change (_ : Origin) (es : Entries) : Option Entries :=
      match get? es key with
      | none => some (es ++ [(key, .table .header [])])
      | some (.table .implied sub) => some (replace es key (.table .header sub))
      | some _ => none
    update false change path.dropLast .header es

/-- Opens one more table of the array that a header names. -/
def openElement (path : List String) (es : Entries) : Option Entries :=
  match path.getLast? with
  | none => none
  | some key =>
    let change (_ : Origin) (es : Entries) : Option Entries :=
      match get? es key with
      | none => some (es ++ [(key, .tables [[]])])
      | some (.tables rows) => some (replace es key (.tables ([] :: rows)))
      | some _ => none
    update false change path.dropLast .header es

end Entries

mutual

def Item.toValue : Item → Value
  | .leaf v => v
  | .table _ entries => .obj (entryValues entries)
  | .tables rows => .arr (rowValues rows).reverse

def entryValues : List (String × Item) → List (String × Value)
  | [] => []
  | (key, item) :: rest => (key, item.toValue) :: entryValues rest

def rowValues : List (List (String × Item)) → List Value
  | [] => []
  | row :: rest => .obj (entryValues row) :: rowValues rest

end

mutual

/-- The value of an expression, unless an inline table gives a key twice. -/
def Expr.toValue? : Expr → Option Value
  | .scalar v => some v
  | .list items => (itemValues? items).map .arr
  | .table entries => (assignAll? [] entries).map fun es => .obj (entryValues es)

def itemValues? : List Expr → Option (List Value)
  | [] => some []
  | e :: rest =>
    match e.toValue?, itemValues? rest with
    | some v, some vs => some (v :: vs)
    | _, _ => none

def assignAll? (es : Entries) : List (List String × Expr) → Option Entries
  | [] => some es
  | (path, e) :: rest =>
    match e.toValue? with
    | none => none
    | some v =>
      match es.assign path v with
      | none => none
      | some es => assignAll? es rest

end

/-- A document so far: its tables, and the path of the table that assignments go to. -/
structure Document where
  entries : Entries := []
  current : List String := []

def Document.add (d : Document) : Statement → Option Document
  | .header path => (d.entries.openTable path).map fun entries => { entries, current := path }
  | .element path => (d.entries.openElement path).map fun entries => { entries, current := path }
  | .assignment path e =>
    match e.toValue? with
    | none => none
    | some v =>
      (d.entries.update false (fun _ es => es.assign path v) d.current .header).map fun entries =>
        { d with entries }

/-- A byte order mark in front of a document is no part of it. -/
def dropMark : List Char → List Char
  | c :: cs => if c.toNat == 0xFEFF then cs else c :: cs
  | [] => []

def read? (text : String) : Option Value :=
  match statements [] (dropMark text.toList) with
  | none => none
  | some ss => (ss.foldlM Document.add {}).map fun d => .obj (entryValues d.entries)

/-- In TOML a record written as a list may have further elements, which are not looked at; the value
of an unknown key is looked at and has to be one. A variant holds an empty table or array. -/
def dialect : Dialect where
  surplus := true
  skips := Value.isSolid
  isUnit
    | .arr [] | .obj [] => true
    | _ => false

end MethodRoles.Toml
