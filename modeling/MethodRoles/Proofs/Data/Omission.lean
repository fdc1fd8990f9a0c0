import MethodRoles.Proofs.Data.Record

/-!
# Objects that leave out defaults

An object stands for a record if it has the parts of the record in any order. A part that has its
default value may be missing, and there may be members with keys that the record does not know. A
reader that takes one part after another gets the whole record from each of these objects. For an
object that lacks a key it makes no difference if the default is written under it.
-/
namespace MethodRoles.Data

open FieldReader

/-- A part of a record as it appears in an object. -/
structure Part where
  key : String
  /-- The values that stand for the part. -/
  forms : Value → Prop
  /-- The part has its default value. -/
  isDefault : Prop

/-- A part that is written in one way. -/
def Part.plain {α : Type} (key : String) (encode : α → Value) (a default : α) : Part :=
  ⟨key, (· = encode a), a = default⟩

/-- The members that are kept of the parts of a record. Only defaults are left out. -/
inductive Kept : List Part → List (String × Value) → Prop where
  | nil : Kept [] []
  | keep {p : Part} {parts : List Part} {v : Value} {members : List (String × Value)}
      (hv : p.forms v)
      (h : Kept parts members) : Kept (p :: parts) ((p.key, v) :: members)
  | leaveOut {p : Part} {parts : List Part} {members : List (String × Value)} (hp : p.isDefault)
      (h : Kept parts members) : Kept (p :: parts) members

/-- The members are those that are kept of the parts, and others with unknown keys, in any order. -/
def Supplies (d : Dialect) (parts : List Part) (members : List (String × Value)) : Prop :=
  ∃ kept unknown, Kept parts kept ∧ (∀ m ∈ unknown, m.1 ∉ parts.map Part.key ∧ d.skips m.2 = true) ∧
    members.Perm (kept ++ unknown)

/-- A value is an object that stands for a record with these parts. -/
def Written (d : Dialect) (parts : List Part) (v : Value) : Prop :=
  ∃ members, v = .obj members ∧ Supplies d parts members

variable {d : Dialect} {p : Part} {parts : List Part} {members : List (String × Value)}

theorem Kept.keys_subset (h : Kept parts members) : members.map Prod.fst ⊆ parts.map Part.key := by
  induction h with
  | nil => simp
  | keep _ _ ih => simpa using List.subset_cons_of_subset _ ih
  | leaveOut _ _ ih => simpa using List.subset_cons_of_subset _ ih

theorem Supplies.of_kept (h : Kept parts members) : Supplies d parts members :=
  ⟨members, [], h, by simp, by simp⟩

/-- A part comes once, or not at all if it has its default value. Without it the members supply the
other parts. -/
theorem Supplies.first (hkey : p.key ∉ parts.map Part.key) (h : Supplies d (p :: parts) members) :
    (p.key ∉ members.map Prod.fst ∧ p.isDefault ∨
      ∃ v, members.filter (·.1 == p.key) = [(p.key, v)] ∧ p.forms v) ∧
    Supplies d parts (members.filter (·.1 != p.key)) := by
  obtain ⟨kept, unknown, hkept, hunknown, hperm⟩ := h
  have hothers : ∀ m ∈ unknown, m.1 ∉ parts.map Part.key ∧ d.skips m.2 = true := by
    intro m hm
    exact ⟨fun hmem => (hunknown m hm).1 (List.mem_cons_of_mem _ hmem), (hunknown m hm).2⟩
  -- neither the other parts nor the unknown members have the key
  have habsent : ∀ {rest}, Kept parts rest → p.key ∉ (rest ++ unknown).map Prod.fst := by
    intro rest hrest hmem
    rw [List.map_append, List.mem_append] at hmem
    obtain hmem | hmem := hmem
    · exact hkey (hrest.keys_subset hmem)
    · obtain ⟨m, hm, hm'⟩ := List.mem_map.1 hmem
      exact (hunknown m hm).1 (hm' ▸ List.mem_cons_self)
  cases hkept with
  | @keep _ _ v rest hv hrest =>
    have honce := hperm.filter (·.1 == p.key)
    have hwithout := hperm.filter (·.1 != p.key)
    simp only [List.cons_append, List.filter_cons, beq_self_eq_true, if_true, bne_self_eq_false,
      Bool.false_eq_true, if_false, filter_key_eq_nil (habsent hrest),
      filter_key_eq_self (habsent hrest)] at honce hwithout
    exact ⟨.inr ⟨v, List.perm_singleton.1 honce, hv⟩, rest, unknown, hrest, hothers, hwithout⟩
  | leaveOut hp hrest =>
    have hmissing : p.key ∉ members.map Prod.fst := by
      rw [(hperm.map Prod.fst).mem_iff]
      exact habsent hrest
    rw [filter_key_eq_self hmissing]
    exact ⟨.inl ⟨hmissing, hp⟩, kept, unknown, hrest, hothers, hperm⟩

/-! ## Readers -/

section

variable {α β : Type}

/-- The reader gets `a` from every object that has the parts and leaves only what may be skipped. -/
def Reads (d : Dialect) (reader : FieldReader α) (parts : List Part) (a : α) : Prop :=
  (parts.map Part.key).Nodup → ∀ members, Supplies d parts members →
    ∃ rest, reader (.named members) = some (a, .named rest) ∧ ∀ m ∈ rest, d.skips m.2 = true

theorem Reads.pure (a : α) : Reads d (pure a) [] a := by
  rintro - members ⟨kept, unknown, hkept, hunknown, hperm⟩
  cases hkept
  exact ⟨members, rfl, fun m hm => (hunknown m (hperm.subset hm)).2⟩

/-- A part is read from where it stands, or its default stands in for it. -/
theorem Reads.part {decode : Decoder α} {a default : α} {unlisted : Option α}
    {next : α → FieldReader β} {b : β}
    (hforms : ∀ v, p.forms v → decode v = some a) (hdefault : p.isDefault → a = default)
    (h : Reads d (next a) parts b) :
    Reads d (field p.key decode (some default) unlisted >>= next) (p :: parts) b := by
  intro hkeys members hmembers
  obtain ⟨hkey, hkeys⟩ := List.nodup_cons.1 hkeys
  obtain ⟨hpart, hothers⟩ := hmembers.first hkey
  obtain ⟨hmissing, hp⟩ | ⟨v, honce, hv⟩ := hpart
  · rw [field_bind_absent hmissing, ← hdefault hp]
    rw [filter_key_eq_self hmissing] at hothers
    exact h hkeys members hothers
  · rw [field_bind_once honce, hforms v hv]
    exact h hkeys _ hothers

theorem Reads.plain {key : String} {decode : Decoder α} {encode : α → Value} {a default : α}
    {unlisted : Option α} {next : α → FieldReader β} {b : β} (ha : decode (encode a) = some a)
    (h : Reads d (next a) parts b) :
    Reads d (field key decode (some default) unlisted >>= next)
      (.plain key encode a default :: parts) b :=
  .part (fun _ hv => hv ▸ ha) id h

theorem Reads.record {reader : FieldReader α} {a : α} {v : Value} (h : Reads d reader parts a)
    (hkeys : (parts.map Part.key).Nodup) (hv : Written d parts v) :
    Decode.record d reader v = some a := by
  obtain ⟨members, rfl, hmembers⟩ := hv
  obtain ⟨rest, hread, hskips⟩ := h hkeys members hmembers
  have hall : rest.all (fun m => d.skips m.2) = true := List.all_eq_true.2 hskips
  simp [Decode.record, readAll, hread, Dialect.allows, hall]

/-! ## Defaults that are written -/

/-- For an object that lacks its key the member makes no difference. -/
def Redundant (reader : FieldReader α) (m : String × Value) : Prop :=
  ∀ members : List (String × Value), m.1 ∉ members.map Prod.fst →
    reader (.named (m :: members)) = reader (.named members)

theorem Redundant.of_default {key : String} {decode : Decoder α} {default : α} {v : Value}
    {unlisted : Option α} {next : α → FieldReader β} (h : decode v = some default) :
    Redundant (field key decode (some default) unlisted >>= next) (key, v) := by
  intro members hmissing
  rw [field_bind_cons hmissing, field_bind_absent hmissing, h]
  rfl

/-- A field with another key is read as if the member was not there. -/
theorem Redundant.of_next {key : String} {decode : Decoder α} {unnamed unlisted : Option α}
    {next : α → FieldReader β} {m : String × Value} (hne : m.1 ≠ key)
    (h : ∀ a, Redundant (next a) m) :
    Redundant (field key decode unnamed unlisted >>= next) m := by
  intro members hmissing
  have hsame : (m :: members).filter (·.1 == key) = members.filter (·.1 == key) :=
    List.filter_cons_of_neg (by simpa using hne)
  have hothers : (m :: members).filter (·.1 != key) = m :: members.filter (·.1 != key) :=
    List.filter_cons_of_pos (by simpa using hne)
  have hrest : m.1 ∉ (members.filter (·.1 != key)).map Prod.fst := by
    intro hmem
    obtain ⟨m', hm', hm⟩ := List.mem_map.1 hmem
    exact hmissing (List.mem_map.2 ⟨m', (List.mem_filter.1 hm').1, hm⟩)
  change (field key decode unnamed unlisted (.named (m :: members)) >>= fun r => next r.1 r.2) =
    (field key decode unnamed unlisted (.named members) >>= fun r => next r.1 r.2)
  rw [FieldReader.field, FieldReader.field, hsame, hothers]
  split
  · cases unnamed with
    | none => rfl
    | some a => exact h a members hmissing
  · next v _ =>
    cases decode v with
    | none => rfl
    | some a => exact h a _ hrest
  · rfl

theorem Redundant.record {reader : FieldReader α} {m : String × Value} (h : Redundant reader m)
    (d : Dialect) {members : List (String × Value)} (hmissing : m.1 ∉ members.map Prod.fst) :
    Decode.record d reader (.obj (m :: members)) = Decode.record d reader (.obj members) := by
  rw [Decode.record, Decode.record, readAll, readAll, h members hmissing]

end

end MethodRoles.Data
