import Mathlib.Data.List.Forall2
import MethodRoles.Data

/-!
# Reading fields

What reading the next field of a record comes to when the record is written as an object: the first
member is taken if it has the key, and a default stands in if no member has it.
-/
namespace MethodRoles.Data

namespace FieldReader

variable {α β : Type} {key : String} {decode : Decoder α} {members : List (String × Value)}

theorem filter_key_eq_nil (h : key ∉ members.map Prod.fst) : members.filter (·.1 == key) = [] := by
  rw [List.filter_eq_nil_iff]
  intro m hm he
  rw [beq_iff_eq] at he
  exact h (he ▸ List.mem_map_of_mem hm)

theorem filter_key_eq_self (h : key ∉ members.map Prod.fst) :
    members.filter (·.1 != key) = members := by
  rw [List.filter_eq_self]
  intro m hm
  rw [bne_iff_ne]
  rintro rfl
  exact h (List.mem_map_of_mem hm)

/-- A field whose key comes once is read from there and taken away. -/
theorem field_bind_once {v : Value} (h : members.filter (·.1 == key) = [(key, v)])
    (unnamed unlisted : Option α) (next : α → FieldReader β) :
    (field key decode unnamed unlisted >>= next) (.named members) =
      (decode v).bind fun a => next a (.named (members.filter (·.1 != key))) := by
  have hfield : field key decode unnamed unlisted (.named members) =
      (decode v).map (·, .named (members.filter (·.1 != key))) := by
    simp [field, h]
  change (field key decode unnamed unlisted (.named members) >>= fun r => next r.1 r.2) = _
  rw [hfield]
  cases decode v <;> rfl

/-- A field whose key comes first is read from there. -/
theorem field_bind_cons (h : key ∉ members.map Prod.fst) (v : Value) (unnamed unlisted : Option α)
    (next : α → FieldReader β) :
    (field key decode unnamed unlisted >>= next) (.named ((key, v) :: members)) =
      (decode v).bind fun a => next a (.named members) := by
  have honce : ((key, v) :: members).filter (·.1 == key) = [(key, v)] := by
    simp [filter_key_eq_nil h]
  have hothers : ((key, v) :: members).filter (·.1 != key) = members := by
    simp [filter_key_eq_self h]
  rw [field_bind_once honce, hothers]

/-- A field whose key is missing has its default. -/
theorem field_bind_absent (h : key ∉ members.map Prod.fst) (default : α) (unlisted : Option α)
    (next : α → FieldReader β) :
    (field key decode (some default) unlisted >>= next) (.named members) =
      next default (.named members) := by
  have hfield : field key decode (some default) unlisted (.named members) =
      some (default, .named members) := by
    simp [field, filter_key_eq_nil h]
  change (field key decode (some default) unlisted (.named members) >>= fun r => next r.1 r.2) = _
  rw [hfield]
  rfl

@[simp] theorem pure_apply (a : α) (fields : Fields) :
    (pure a : FieldReader α) fields = some (a, fields) := rfl

end FieldReader

namespace Decode

/-- A record is decoded when its fields are read one after another and no member is left. -/
theorem record_obj {α : Type} {reader : FieldReader α} {members : List (String × Value)} {a : α}
    (h : reader (.named members) = some (a, .named [])) (dialect : Dialect) :
    record dialect reader (.obj members) = some a := by
  simp [record, FieldReader.readAll, h, Dialect.allows]

theorem below_nat {limit n : Nat} (h : n < limit) : below limit (.nat n) = some n := by
  rw [below, if_pos h]

theorem list_of_forall₂ {α : Type} {item : Decoder α} {items : List α} {values : List Value}
    (h : List.Forall₂ (fun a v => item v = some a) items values) :
    list item (.arr values) = some items := by
  rw [list]
  induction h with
  | nil => rfl
  | cons ha _ ih => simp [ha, ih]

theorem list_map {α : Type} {item : Decoder α} {encode : α → Value} {items : List α}
    (h : ∀ a ∈ items, item (encode a) = some a) :
    list item (.arr (items.map encode)) = some items := by
  refine list_of_forall₂ ?_
  rw [List.forall₂_map_right_iff, List.forall₂_same]
  exact h

theorem nullable_ofOption {α : Type} {item : Decoder α} {encode : α → Value} {o : Option α}
    (hnull : ∀ a ∈ o, encode a ≠ .null) (h : ∀ a ∈ o, item (encode a) = some a) :
    nullable item (.ofOption encode o) = some o := by
  cases o with
  | none => rfl
  | some a =>
    rw [Value.ofOption, nullable.eq_2 _ _ (hnull a rfl), h a rfl]
    rfl

theorem nullable_text (o : Option String) : nullable text (.ofOption .str o) = some o :=
  nullable_ofOption (by simp) fun _ _ => rfl

end Decode

end MethodRoles.Data
