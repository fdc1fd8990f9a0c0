import MethodRoles.Json.Printer
import MethodRoles.Json.Reader
import MethodRoles.Model.Basic
import MethodRoles.Syntax.Tree

/-!
# Program models as data

How the parts of a program model are written as data and read from it. Fields are written in the
order of their declaration, all of them, but for an empty list of children.
-/
namespace MethodRoles

open Data FieldReader

namespace Span

def ofValue? (d : Dialect) : Decoder Span := Decode.record d do
  let startLine ← required "start_line" Decode.word
  let startColumn ← required "start_column" Decode.word
  let endLine ← required "end_line" Decode.word
  let endColumn ← required "end_column" Decode.word
  return { startLine, startColumn, endLine, endColumn }

def toValue (s : Span) : Value :=
  .obj [("start_line", .nat s.startLine), ("start_column", .nat s.startColumn),
    ("end_line", .nat s.endLine), ("end_column", .nat s.endColumn)]

end Span

namespace Path

def ofValue? : Decoder Path := fun v => (Decode.text v).map Path.mk

def toValue (p : Path) : Value := .str p.text

end Path

namespace Location

def ofValue? (d : Dialect) : Decoder Location := Decode.record d do
  let file ← required "file" Path.ofValue?
  let span ← withDefault "span" (Span.ofValue? d) {}
  return { file, span }

def toValue (l : Location) : Value := .obj [("file", l.file.toValue), ("span", l.span.toValue)]

end Location

def NodeKind.ofValue? (d : Dialect) : Decoder NodeKind := Decode.variant d NodeKind.ofName?

def MemberKind.ofValue? (d : Dialect) : Decoder MemberKind := Decode.variant d MemberKind.ofName?

/-- The name of a node. -/
def Data.Decode.node : Decoder Nat := Decode.below nodeLimit

namespace Target

def ofValue? (d : Dialect) : Decoder Target := Decode.record d do
  let isUserCode ← required "has_user_declaration" Decode.bool
  let name ← required "name" Decode.text
  let containingNamespace ← withDefault "containing_namespace" Decode.text ""
  let containingType ← withDefault "containing_type" Decode.text ""
  let isVirtual ← withDefault "is_virtual" Decode.bool false
  let isDelegateInvoke ← withDefault "is_delegate_invoke" Decode.bool false
  return { isUserCode, name, containingNamespace, containingType, isVirtual, isDelegateInvoke }

def toValue (t : Target) : Value :=
  .obj [("has_user_declaration", .bool t.isUserCode), ("name", .str t.name),
    ("containing_namespace", .str t.containingNamespace),
    ("containing_type", .str t.containingType), ("is_virtual", .bool t.isVirtual),
    ("is_delegate_invoke", .bool t.isDelegateInvoke)]

end Target

namespace NodeModel

def ofValue? (d : Dialect) : Decoder NodeModel := Decode.record d do
  let kind ← required "kind" (NodeKind.ofValue? d)
  let text ← withDefault "text" Decode.text ""
  let span ← withDefault "span" (Span.ofValue? d) {}
  let children ← withDefault "children" (Decode.list Decode.node) []
  return { kind, text, span, children }

def toValue (n : NodeModel) : Value :=
  .obj ([("kind", .str n.kind.name), ("text", .str n.text), ("span", n.span.toValue)] ++
    if n.children = [] then [] else [("children", .arr (n.children.map .nat))])

end NodeModel

namespace Method

def ofValue? (d : Dialect) : Decoder Method := Decode.record d do
  let name ← required "name" Decode.text
  let kind ← withDefault "kind" (MemberKind.ofValue? d) .method
  let isVirtual ← withDefault "is_virtual" Decode.bool false
  let owningType ← withDefault "owning_type" Decode.text ""
  let locations ← withDefault "locations" (Decode.list (Location.ofValue? d)) []
  let body ← withDefault "body" (Decode.nullable Decode.node) none
  return { name, kind, isVirtual, owningType, locations, body }

def toValue (m : Method) : Value :=
  .obj [("name", .str m.name), ("kind", .str m.kind.name), ("is_virtual", .bool m.isVirtual),
    ("owning_type", .str m.owningType), ("locations", .arr (m.locations.map Location.toValue)),
    ("body", .ofOption .nat m.body)]

end Method

namespace CallModel

def ofValue? (d : Dialect) : Decoder CallModel := Decode.record d do
  let node ← required "node" Decode.node
  let target ← required "target" (Target.ofValue? d)
  return { node, target }

def toValue (c : CallModel) : Value := .obj [("node", .nat c.node), ("target", c.target.toValue)]

end CallModel

namespace FileModel

def ofValue? (d : Dialect) : Decoder FileModel := Decode.record d do
  let path ← required "path" Path.ofValue?
  let generated ← withDefault "generated" Decode.bool false
  let nodes ← required "nodes" (Decode.list (NodeModel.ofValue? d))
  let methods ← withDefault "methods" (Decode.list (Method.ofValue? d)) []
  let calls ← withDefault "calls" (Decode.list (CallModel.ofValue? d)) []
  return { path, generated, nodes, methods, calls }

def toValue (m : FileModel) : Value :=
  .obj [("path", m.path.toValue), ("generated", .bool m.generated),
    ("nodes", .arr (m.nodes.map NodeModel.toValue)),
    ("methods", .arr (m.methods.map Method.toValue)),
    ("calls", .arr (m.calls.map CallModel.toValue))]

end FileModel

namespace ProgramModel

def ofValue? (d : Dialect) : Decoder ProgramModel := Decode.record d do
  let files ← required "files" (Decode.list (FileModel.ofValue? d))
  return { files }

def toValue (m : ProgramModel) : Value := .obj [("files", .arr (m.files.map FileModel.toValue))]

def ofJson? (text : String) : Option ProgramModel := (Json.read? text).bind (ofValue? Json.dialect)

def toJson (m : ProgramModel) : String := Json.pretty m.toValue

end ProgramModel

end MethodRoles
