import MethodRoles.Role.Analyzer
import MethodRoles.Sketch.Basic

/-!
# From sketches to file models

The nodes of all methods of a file are numbered in the order of their text, parents before children.
A node takes up a line of its own, followed by the lines of what is below it. It is put down before
its children are lowered and completed after that, when their names and its last line are known.
-/
namespace MethodRoles

/-- What has been lowered so far. -/
structure Lowering where
  /-- The last line that is taken up. -/
  line : Nat := 0
  nodes : Array NodeModel := #[]
  calls : Array CallModel := #[]
  deriving Inhabited

abbrev Lower (α : Type) := StateM Lowering α

namespace Lower

/-- Puts a node down on the next line and gives its name. -/
def place (kind : NodeKind) (text : String) : Lower Nat := do
  let s ← get
  set { s with line := s.line + 1, nodes := s.nodes.push { kind, text } }
  return s.nodes.size

def enterCall (node : Nat) (target : Target) : Lower Unit :=
  modify fun s => { s with calls := s.calls.push { node, target } }

/-- Completes a node that begins on line `start` and ends on the last line. -/
def complete (id start : Nat) (children : List Nat) : Lower Unit :=
  modify fun s =>
    { s with nodes := s.nodes.modify id fun n =>
      { n with children, span := ⟨start, 1, s.line, 1⟩ } }

end Lower

namespace Sketch

mutual

/-- Lowers a sketch and gives the name of its first node. -/
def lower : Sketch → Lower Nat
  | ⟨kind, text, target, children⟩ => do
    let id ← Lower.place kind text
    let start := (← get).line
    if let some t := target then Lower.enterCall id t
    let ids ← lowerAll children
    Lower.complete id start ids
    return id

def lowerAll : List Sketch → Lower (List Nat)
  | [] => return []
  | s :: rest => do
    let id ← s.lower
    let ids ← lowerAll rest
    return id :: ids

end

end Sketch

namespace MethodSketch

/-- The declaration of a method whose body has the given name. -/
def declare (path : Path) (m : MethodSketch) (body : Option Nat) : Method :=
  { m.declaration with
    body
    locations := match m.site with
      | some span => [{ file := path, span }]
      | none => m.declaration.locations }

/-- Lowers the body of a method and gives its declaration. -/
def lower (path : Path) (m : MethodSketch) : Lower Method := do
  let body ← m.body.mapM Sketch.lower
  return m.declare path body

end MethodSketch

namespace FileSketch

def toModel (f : FileSketch) : FileModel :=
  let (methods, s) := (f.methods.mapM (MethodSketch.lower f.path)).run {}
  { path := f.path
    generated := f.generated
    nodes := s.nodes.toList
    methods
    calls := s.calls.toList }

/-- What the given analyzer reports on a sketch. -/
def diagnostics (a : Analyzer) (f : FileSketch) : Except LoadError (List Diagnostic) :=
  f.toModel.load.map (a.diagnostics .unlimited)

end FileSketch

end MethodRoles
