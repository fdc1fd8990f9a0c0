import MethodRoles.Model.Codec
import MethodRoles.Proofs.Data.Record
import MethodRoles.Proofs.Json.RoundTrip

/-!
# Program models are read back

A program model that is written as JSON is read as the same model, if its numbers are in the ranges
that readers ask for. For each part of a model there are two facts: its data form decodes to the
part, and the data form can be printed.
-/
namespace MethodRoles

open Data FieldReader

/-! ## Data forms that can be printed -/

namespace Data.Value

@[simp] theorem plain_bool (b : Bool) : (bool b).Plain := .bool b

@[simp] theorem plain_nat (n : Nat) : (nat n).Plain := .nat n

@[simp] theorem plain_str (s : String) : (str s).Plain := .str s

@[simp] theorem plain_arr_iff {items : List Value} : (arr items).Plain ↔ ∀ v ∈ items, v.Plain := by
  constructor
  · rintro (⟨⟩ | ⟨⟩ | ⟨⟩ | ⟨⟩ | h | ⟨⟩)
    exact h
  · exact .arr

@[simp] theorem plain_obj_iff {members : List (String × Value)} :
    (obj members).Plain ↔ ∀ m ∈ members, m.2.Plain := by
  constructor
  · rintro (⟨⟩ | ⟨⟩ | ⟨⟩ | ⟨⟩ | ⟨⟩ | h)
    exact h
  · exact .obj

theorem plain_ofOption {α : Type} {encode : α → Value} (h : ∀ a, (encode a).Plain) (o : Option α) :
    (ofOption encode o).Plain := by
  cases o with
  | none => exact .null
  | some a => exact h a

end Data.Value

/-! ## Spans, locations and targets -/

def Span.InRange (s : Span) : Prop :=
  s.startLine < Text.wordLimit ∧ s.startColumn < Text.wordLimit ∧ s.endLine < Text.wordLimit ∧
    s.endColumn < Text.wordLimit

instance (s : Span) : Decidable s.InRange := inferInstanceAs (Decidable (_ ∧ _ ∧ _ ∧ _))

theorem Span.ofValue?_toValue (d : Dialect) {s : Span} (h : s.InRange) :
    ofValue? d s.toValue = some s := by
  obtain ⟨h₁, h₂, h₃, h₄⟩ := h
  apply Decode.record_obj
  simp [-bind_pure_comp, required, field_bind_cons, Decode.word, Decode.below_nat, h₁, h₂, h₃, h₄]

theorem Span.plain_toValue (s : Span) : s.toValue.Plain := by simp [toValue]

theorem Path.ofValue?_toValue (p : Path) : ofValue? p.toValue = some p := rfl

theorem Path.plain_toValue (p : Path) : p.toValue.Plain := .str p.text

theorem Location.ofValue?_toValue (d : Dialect) {l : Location} (h : l.span.InRange) :
    ofValue? d l.toValue = some l := by
  apply Decode.record_obj
  simp [-bind_pure_comp, required, withDefault, field_bind_cons, Path.ofValue?_toValue,
    Span.ofValue?_toValue d h]

theorem Location.plain_toValue (l : Location) : l.toValue.Plain := by
  simp [toValue, Path.plain_toValue, Span.plain_toValue]

theorem Target.ofValue?_toValue (d : Dialect) (t : Target) : ofValue? d t.toValue = some t := by
  apply Decode.record_obj
  simp [-bind_pure_comp, required, withDefault, field_bind_cons, Decode.bool, Decode.text]

theorem Target.plain_toValue (t : Target) : t.toValue.Plain := by simp [toValue]

/-! ## Nodes, methods and calls -/

def NodeModel.InRange (n : NodeModel) : Prop := n.span.InRange ∧ ∀ c ∈ n.children, c < nodeLimit

instance (n : NodeModel) : Decidable n.InRange := inferInstanceAs (Decidable (_ ∧ _))

/-- An empty list of children is left out and comes back as the default. -/
theorem NodeModel.ofValue?_toValue (d : Dialect) {n : NodeModel} (h : n.InRange) :
    ofValue? d n.toValue = some n := by
  obtain ⟨kind, text, span, children⟩ := n
  obtain ⟨hspan, hchildren⟩ := h
  have hkind : NodeKind.ofValue? d (.str kind.name) = some kind := NodeKind.ofName?_name kind
  have hlist : Decode.list Decode.node (.arr (children.map .nat)) = some children :=
    Decode.list_map fun c hc => Decode.below_nat (hchildren c hc)
  apply Decode.record_obj
  by_cases hnil : children = []
  · simp [-bind_pure_comp, required, withDefault, field_bind_cons, field_bind_absent, hkind,
      Decode.text, Span.ofValue?_toValue d hspan, hnil]
  · simp [-bind_pure_comp, required, withDefault, field_bind_cons, hkind, Decode.text,
      Span.ofValue?_toValue d hspan, hnil, hlist]

theorem NodeModel.plain_toValue (n : NodeModel) : n.toValue.Plain := by
  by_cases h : n.children = [] <;> simp [toValue, h, Span.plain_toValue]

def Method.InRange (m : Method) : Prop :=
  (∀ l ∈ m.locations, l.span.InRange) ∧ ∀ body ∈ m.body, body < nodeLimit

instance (m : Method) : Decidable m.InRange := inferInstanceAs (Decidable (_ ∧ _))

theorem Method.ofValue?_toValue (d : Dialect) {m : Method} (h : m.InRange) :
    ofValue? d m.toValue = some m := by
  obtain ⟨hlocations, hbody⟩ := h
  have hkind : MemberKind.ofValue? d (.str m.kind.name) = some m.kind :=
    MemberKind.ofName?_name m.kind
  have hlist : Decode.list (Location.ofValue? d) (.arr (m.locations.map Location.toValue)) =
      some m.locations := Decode.list_map fun l hl => Location.ofValue?_toValue d (hlocations l hl)
  have hnode : Decode.nullable Decode.node (.ofOption .nat m.body) = some m.body :=
    Decode.nullable_ofOption (by simp) fun body hb => Decode.below_nat (hbody body hb)
  apply Decode.record_obj
  simp [-bind_pure_comp, required, withDefault, field_bind_cons, hkind, Decode.text, Decode.bool,
    hlist, hnode]

theorem Method.plain_toValue (m : Method) : m.toValue.Plain := by
  simp [toValue, Location.plain_toValue, Value.plain_ofOption]

theorem CallModel.ofValue?_toValue (d : Dialect) {c : CallModel} (h : c.node < nodeLimit) :
    ofValue? d c.toValue = some c := by
  have hnode : Decode.node (.nat c.node) = some c.node := Decode.below_nat h
  apply Decode.record_obj
  simp [-bind_pure_comp, required, field_bind_cons, hnode, Target.ofValue?_toValue]

theorem CallModel.plain_toValue (c : CallModel) : c.toValue.Plain := by
  simp [toValue, Target.plain_toValue]

/-! ## Files and programs -/

/-- Names of nodes fit into 32 bits, and lines and columns into 64. -/
def FileModel.InRange (m : FileModel) : Prop :=
  (∀ n ∈ m.nodes, n.InRange) ∧ (∀ method ∈ m.methods, method.InRange) ∧
    ∀ c ∈ m.calls, c.node < nodeLimit

instance (m : FileModel) : Decidable m.InRange := inferInstanceAs (Decidable (_ ∧ _ ∧ _))

theorem FileModel.ofValue?_toValue (d : Dialect) {m : FileModel} (h : m.InRange) :
    ofValue? d m.toValue = some m := by
  obtain ⟨hn, hm, hc⟩ := h
  have hnodes : Decode.list (NodeModel.ofValue? d) (.arr (m.nodes.map NodeModel.toValue)) =
      some m.nodes := Decode.list_map fun n h => NodeModel.ofValue?_toValue d (hn n h)
  have hmethods : Decode.list (Method.ofValue? d) (.arr (m.methods.map Method.toValue)) =
      some m.methods := Decode.list_map fun n h => Method.ofValue?_toValue d (hm n h)
  have hcalls : Decode.list (CallModel.ofValue? d) (.arr (m.calls.map CallModel.toValue)) =
      some m.calls := Decode.list_map fun c h => CallModel.ofValue?_toValue d (hc c h)
  apply Decode.record_obj
  simp [-bind_pure_comp, required, withDefault, field_bind_cons, Path.ofValue?_toValue, Decode.bool,
    hnodes, hmethods, hcalls]

theorem FileModel.plain_toValue (m : FileModel) : m.toValue.Plain := by
  simp [toValue, Path.plain_toValue, NodeModel.plain_toValue, Method.plain_toValue,
    CallModel.plain_toValue]

namespace ProgramModel

def InRange (m : ProgramModel) : Prop := ∀ f ∈ m.files, f.InRange

instance (m : ProgramModel) : Decidable m.InRange := inferInstanceAs (Decidable (∀ _ ∈ _, _))

theorem ofValue?_toValue (d : Dialect) {m : ProgramModel} (h : m.InRange) :
    ofValue? d m.toValue = some m := by
  have hfiles : Decode.list (FileModel.ofValue? d) (.arr (m.files.map FileModel.toValue)) =
      some m.files := Decode.list_map fun f hf => FileModel.ofValue?_toValue d (h f hf)
  apply Decode.record_obj
  simp [-bind_pure_comp, required, field_bind_cons, hfiles]

theorem plain_toValue (m : ProgramModel) : m.toValue.Plain := by
  simp [toValue, FileModel.plain_toValue]

/-- A program model that is printed is read as the same model, text by text. -/
theorem ofJson?_toJson {m : ProgramModel} (h : m.InRange) : ofJson? m.toJson = some m := by
  rw [ofJson?, toJson, Json.read?_pretty m.plain_toValue, Option.bind_some, ofValue?_toValue _ h]

/-- Texts with characters of every sort, the largest line, a list of children that is left out, a
method without a body and a file without nodes. -/
def hardToPrint : ProgramModel where
  files :=
    [{ path := ⟨"a\\b\"/.cs"⟩
       generated := true
       nodes :=
         [{ kind := .block, span := ⟨0, 1, Text.wordLimit - 1, 1⟩, children := [1] },
           { kind := .invocation, text := "\x01\x08\t\n\x0c\r\x1f \x7f é😀" }]
       methods :=
         [{ name := "\n", kind := .accessor, locations := [{ file := ⟨""⟩ }], body := some 0 },
           { name := "" }]
       calls := [{ node := 1, target := .external "System" "Func<int>" "\"" }] },
     { path := ⟨""⟩, nodes := [] }]

theorem ofJson?_toJson_hardToPrint :
    hardToPrint.InRange ∧ ofJson? hardToPrint.toJson = some hardToPrint := by
  have h : hardToPrint.InRange := by decide
  exact ⟨h, ofJson?_toJson h⟩

end ProgramModel

end MethodRoles
