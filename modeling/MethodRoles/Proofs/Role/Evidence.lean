import MethodRoles.Proofs.Data.Lists
import MethodRoles.Role.Outcome

/-!
# What becomes evidence

The rulings on calls and the expressions are recorded one after another. What has been recorded in
the end is said for each of the three sets on its own, by the list of the texts that were put into
it.
-/
namespace MethodRoles

/-! ## Sets of texts -/

namespace Seen

/-- The index holds the same texts as the list. -/
def Faithful (s : Seen) : Prop := ∀ a, s.contains a = true ↔ a ∈ s.toList

theorem faithful_empty : empty.Faithful := by
  intro a
  simp [empty, contains, toList]

theorem Faithful.insert_eq {s : Seen} (h : s.Faithful) (a : String) :
    s.insert a =
      if a ∈ s.toList then s else { items := s.items.push a, index := s.index.insert a } := by
  simp only [Seen.insert, h a]

theorem Faithful.toList_insert {s : Seen} (h : s.Faithful) (a : String) :
    (s.insert a).toList = if a ∈ s.toList then s.toList else s.toList ++ [a] := by
  rw [h.insert_eq]
  split
  · rfl
  · simp [toList]

theorem Faithful.insert {s : Seen} (h : s.Faithful) (a : String) : (s.insert a).Faithful := by
  intro b
  rw [h.toList_insert, h.insert_eq]
  split
  · exact h b
  · have hb := h b
    rw [contains] at hb ⊢
    rw [Std.HashSet.contains_insert, Bool.or_eq_true, hb, beq_iff_eq, List.mem_append,
      List.mem_singleton, or_comm, eq_comm]

theorem Faithful.mem_insertAll {s : Seen} (h : s.Faithful) {texts : List String} {b : String} :
    b ∈ (s.insertAll texts).toList ↔ b ∈ s.toList ∨ b ∈ texts := by
  induction texts generalizing s with
  | nil => simp [Seen.insertAll]
  | cons a texts ih =>
    have hi := ih (h.insert a)
    rw [h.toList_insert] at hi
    rw [List.mem_cons, ← or_assoc]
    refine hi.trans (or_congr_left ?_)
    by_cases ha : a ∈ s.toList
    · simp only [ha, if_true]
      constructor
      · exact .inl
      · rintro (hb | rfl)
        · exact hb
        · exact ha
    · simp [ha]

theorem Faithful.toList_insertAll {s : Seen} (h : s.Faithful) (hs : s.toList.eraseDups = s.toList)
    (texts : List String) : (s.insertAll texts).toList = (s.toList ++ texts).eraseDups := by
  induction texts generalizing s with
  | nil => rw [List.append_nil, hs, Seen.insertAll, List.foldl_nil]
  | cons a texts ih =>
    by_cases ha : a ∈ s.toList
    · have hi : s.insert a = s := by rw [h.insert_eq, if_pos ha]
      rw [Seen.insertAll, List.foldl_cons, hi, eraseDups_append_cons ha]
      exact ih h hs
    · have hi : (s.insert a).toList = s.toList ++ [a] := by rw [h.toList_insert, if_neg ha]
      have hd : (s.insert a).toList.eraseDups = (s.insert a).toList := by
        rw [hi, eraseDups_append_singleton, if_neg ha, hs]
      rw [Seen.insertAll, List.foldl_cons]
      have := ih (h.insert a) hd
      rw [hi, List.append_assoc, List.singleton_append] at this
      exact this

/-- Of each text only the first appearance is kept. -/
theorem toList_ofList (texts : List String) : (ofList texts).toList = texts.eraseDups := by
  have hempty : empty.toList = [] := rfl
  rw [ofList, faithful_empty.toList_insertAll (by rw [hempty, List.eraseDups_nil]), hempty,
    List.nil_append]

theorem size_ofList (texts : List String) : (ofList texts).size = texts.eraseDups.length := by
  rw [← toList_ofList, toList, Array.length_toList, size]

theorem isEmpty_ofList (texts : List String) : (ofList texts).isEmpty = texts.isEmpty := by
  have hm : ∀ b, b ∈ (ofList texts).toList ↔ b ∈ texts := by
    intro b
    rw [ofList, faithful_empty.mem_insertAll]
    simp [empty, toList]
  rw [Bool.eq_iff_iff, List.isEmpty_iff, isEmpty, Array.isEmpty_iff, ← Array.toList_eq_nil_iff]
  simp only [List.eq_nil_iff_forall_not_mem]
  exact forall_congr' fun b => not_congr (hm b)

theorem ofList_append_singleton (texts : List String) (a : String) :
    ofList (texts ++ [a]) = (ofList texts).insert a := by
  rw [ofList, ofList, insertAll, insertAll, List.foldl_append]
  rfl

theorem faithful_ofList (texts : List String) : (ofList texts).Faithful := by
  induction texts using List.reverseRecOn with
  | nil => exact faithful_empty
  | append_singleton texts a ih =>
    rw [ofList_append_singleton]
    exact ih.insert a

/-- Repetitions leave no trace in a set. -/
theorem ofList_eraseDups (texts : List String) : ofList texts.eraseDups = ofList texts := by
  induction texts using List.reverseRecOn with
  | nil => rfl
  | append_singleton texts a ih =>
    have hmem : a ∈ (ofList texts).toList ↔ a ∈ texts := by rw [toList_ofList, List.mem_eraseDups]
    rw [eraseDups_append_singleton, ofList_append_singleton]
    split
    · next h => rw [ih, (faithful_ofList texts).insert_eq, if_pos (hmem.2 h)]
    · rw [ofList_append_singleton, ih]

theorem ofList_eq_of_sameFirsts {a b : List String} (h : SameFirsts a b) : ofList a = ofList b := by
  rw [← ofList_eraseDups a, ← ofList_eraseDups b, show a.eraseDups = b.eraseDups from h]

/-! ## Texts that are inserted one after another

A set keeps its texts twice, in a list for their order and in an index for looking them up. Along
every run of insertions the two hold the same texts, each insertion tells whether its text is new,
and the list holds the first appearances of what was inserted. So a run can be cut in two and each
part inserted without its repetitions. -/

/-- Adds texts one after another and tells of each whether it is new. -/
def insertEach (s : Seen) : List String → List Bool × Seen
  | [] => ([], s)
  | a :: rest =>
    let (answers, last) := (s.insertNew a).2.insertEach rest
    ((s.insertNew a).1 :: answers, last)

theorem insertEach_cons (s : Seen) (a : String) (rest : List String) :
    s.insertEach (a :: rest) =
      ((s.insertNew a).1 :: ((s.insert a).insertEach rest).1, ((s.insert a).insertEach rest).2) :=
    rfl

theorem snd_insertEach (s : Seen) (texts : List String) :
    (s.insertEach texts).2 = s.insertAll texts := by
  induction texts generalizing s with
  | nil => rfl
  | cons a rest ih => rw [insertEach_cons, ih, insertAll, insertAll, List.foldl_cons]

theorem length_insertEach (s : Seen) (texts : List String) :
    (s.insertEach texts).1.length = texts.length := by
  induction texts generalizing s with
  | nil => rfl
  | cons a rest ih => rw [insertEach_cons, List.length_cons, ih, List.length_cons]

theorem contains_ofList (texts : List String) (a : String) :
    (ofList texts).contains a = decide (a ∈ texts) := by
  rw [Bool.eq_iff_iff, faithful_ofList texts a, toList_ofList, List.mem_eraseDups,
    decide_eq_true_iff]

theorem insertNew_ofList (texts : List String) (a : String) :
    (ofList texts).insertNew a = (decide (a ∉ texts), ofList (texts ++ [a])) := by
  rw [insertNew, contains_ofList, ← decide_not, ofList_append_singleton]

/-- The induction runs over what is inserted before `a`, which joins what has been there already. -/
theorem getElem?_insertEach (earlier before after : List String) (a : String) :
    ((ofList earlier).insertEach (before ++ a :: after)).1[before.length]? =
      some (decide (a ∉ earlier ++ before)) := by
  induction before generalizing earlier with
  | nil => rw [List.nil_append, insertEach_cons, insertNew_ofList, List.append_nil]; rfl
  | cons b before ih =>
    have hrest := ih (earlier ++ [b])
    rw [List.append_assoc, List.singleton_append] at hrest
    rw [List.cons_append, insertEach_cons, List.length_cons, List.getElem?_cons_succ,
      ← ofList_append_singleton, hrest]

/-- After any run of insertions the list and the index hold the same texts, and the list is the
first appearances of what was inserted, none of them twice. An insertion answers that its text is
new exactly if it was not inserted before. Two runs one after the other give the same set as their
first appearances do. -/
theorem insertions_keep_first_appearances :
    (∀ texts, (empty.insertEach texts).2 = ofList texts ∧
      (ofList texts).items.toList.Nodup ∧
      (∀ a, (ofList texts).index.contains a = true ↔ a ∈ (ofList texts).items.toList) ∧
      (ofList texts).items.toList = texts.eraseDups ∧
      (empty.insertEach texts).1.length = texts.length) ∧
    (∀ before a after, (empty.insertEach (before ++ a :: after)).1[before.length]? =
      some (decide (a ∉ before))) ∧
    ∀ a b, ofList (a ++ b) = ofList (a.eraseDups ++ b.eraseDups) := by
  refine ⟨fun texts => ⟨snd_insertEach empty texts, ?_, faithful_ofList texts, toList_ofList texts,
    length_insertEach empty texts⟩, fun before a after => ?_, fun a b => ?_⟩
  · have hlist : (ofList texts).items.toList = texts.eraseDups := toList_ofList texts
    rw [hlist]
    exact nodup_eraseDups texts
  · exact getElem?_insertEach [] before after a
  · exact ofList_eq_of_sameFirsts (eraseDups_append_eraseDups a b).symm

end Seen

/-! ## What is recorded -/

namespace Ruling

def integrated? : Ruling → Option String
  | .integration name => some name
  | _ => none

def operated? : Ruling → Option String
  | .operation name => some name
  | _ => none

end Ruling

namespace Evidence

theorem foldl_record (rulings : List Ruling) (e : Evidence) :
    rulings.foldl record e =
      { e with
        integrations := e.integrations.insertAll (rulings.filterMap Ruling.integrated?)
        operations := e.operations.insertAll (rulings.filterMap Ruling.operated?) } := by
  induction rulings generalizing e with
  | nil => rfl
  | cons r rulings ih =>
    rw [List.foldl_cons, ih]
    cases r <;> rfl

theorem foldl_recordExpression (texts : List String) (e : Evidence) :
    texts.foldl recordExpression e = { e with expressions := e.expressions.insertAll texts } := by
  induction texts generalizing e with
  | nil => rfl
  | cons a texts ih =>
    rw [List.foldl_cons, ih]
    rfl

theorem isViolation_ofList {integrations operations expressions : List String} :
    isViolation ⟨.ofList integrations, .ofList operations, .ofList expressions⟩ = true ↔
      integrations ≠ [] ∧ (operations ≠ [] ∨ expressions ≠ []) := by
  simp only [isViolation, Seen.isEmpty_ofList, Bool.and_eq_true, Bool.or_eq_true, Bool.not_eq_true',
    List.isEmpty_eq_false_iff]

end Evidence

namespace SourceFile

/-- The rulings on the calls below a node that are resolved, in the order of the calls. -/
def rulings (f : SourceFile) (table : ExclusionTable) (caller : String) (calls : List Nat) :
    List Ruling :=
  calls.filterMap fun call => f.targets[call]?.map (.on table caller)

/-- The evidence on a body when the run is not cancelled. -/
def fullEvidence (f : SourceFile) (table : ExclusionTable) (caller : String) (body : Nat) :
    Evidence where
  integrations := .ofList ((f.rulings table caller (f.calls body)).filterMap Ruling.integrated?)
  operations := .ofList ((f.rulings table caller (f.calls body)).filterMap Ruling.operated?)
  expressions := .ofList (f.expressions body)

theorem foldl_record_rulings (f : SourceFile) (table : ExclusionTable) (caller : String)
    (body : Nat) :
    (f.expressions body).foldl Evidence.recordExpression
      ((f.rulings table caller (f.calls body)).foldl Evidence.record {}) =
      f.fullEvidence table caller body := by
  rw [Evidence.foldl_record, Evidence.foldl_recordExpression]
  rfl

end SourceFile

end MethodRoles
