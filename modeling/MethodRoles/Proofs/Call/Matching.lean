import Mathlib.Data.List.Basic
import MethodRoles.Call.Exclusion
import MethodRoles.Proofs.Text.Cutting

/-!
# What exclusion rules match

A rule looks at the first characters of a namespace and at the one after them, which comes to
comparing whole dotted segments, empty ones included. Of a type it looks at the name without type
arguments, and a member has to have the name that the rule sets.
-/
namespace MethodRoles

namespace TypeText

/-- `name` is what stands in a type text before the first opening bracket or backtick, without the
blanks at its ends. -/
def HasBaseName (type name : List Char) : Prop :=
  ∃ front rest, type = front ++ rest ∧ (∀ c ∈ front, c ≠ '<' ∧ c ≠ '\x60') ∧
    (∀ c ∈ rest.head?, c = '<' ∨ c = '\x60') ∧ Text.TrimsTo front name

theorem baseName_eq_iff {type name : List Char} : baseName type = name ↔ HasBaseName type name := by
  rw [baseName, Text.trim_eq_iff]
  constructor
  · intro h
    obtain ⟨rest, htype, hfront, hrest⟩ := Text.takeWhile_eq_iff.1
      (rfl : type.takeWhile (fun c => c ≠ '<' && c ≠ '\x60') = _)
    refine ⟨_, rest, htype, fun c hc => ?_, fun c hc => ?_, h⟩
    · simpa using hfront c hc
    · have hc := hrest c hc
      simp only [Bool.and_eq_false_iff, decide_eq_false_iff_not, not_not] at hc
      exact hc
  · rintro ⟨front, rest, htype, hfront, hrest, h⟩
    have hcut : type.takeWhile (fun c => c ≠ '<' && c ≠ '\x60') = front := by
      refine Text.takeWhile_eq_iff.2 ⟨rest, htype, fun c hc => ?_, fun c hc => ?_⟩
      · simpa using hfront c hc
      · rcases hrest c hc with rfl | rfl <;> rfl
    rwa [hcut]

end TypeText

namespace ExclusionRule

theorem liesIn_iff {inner outer : String} :
    liesIn inner outer = true ↔
      inner.toList = outer.toList ∨ ∃ rest, inner.toList = outer.toList ++ '.' :: rest := by
  rw [liesIn]
  cases h : outer.toList.isPrefixOf? inner.toList with
  | none =>
    have hnot : ∀ rest, inner.toList ≠ outer.toList ++ rest := by
      intro rest hrest
      rw [List.isPrefixOf?_eq_some_iff_append_eq.2 hrest.symm] at h
      cases h
    have hself := hnot []
    rw [List.append_nil] at hself
    simp [hself, hnot]
  | some rest =>
    rw [← List.isPrefixOf?_eq_some_iff_append_eq.1 h]
    cases rest with
    | nil => simp
    | cons c rest => simp

/-- A rule accepts a target exactly if it sets a criterion at all and the target meets all that it
sets: its namespace begins with the dotted segments of the rule's, its type has the rule's type as
its base name, and it is called as the rule says. -/
theorem accepts_iff_whole_segments (r : ExclusionRule) (t : Target) :
    r.accepts t = true ↔
      (r.inNamespace ≠ none ∨ r.ofType ≠ none ∨ r.member ≠ none) ∧
      (∀ space, r.inNamespace = some space →
        Text.segments '.' space.toList <+: Text.segments '.' t.containingNamespace.toList) ∧
      (∀ type, r.ofType = some type → TypeText.HasBaseName t.containingType.toList type.toList) ∧
      (∀ name, r.member = some name → t.name = name) := by
  have hset : (!r.isEmpty) = true ↔ r.inNamespace ≠ none ∨ r.ofType ≠ none ∨ r.member ≠ none := by
    simp only [isEmpty, Bool.not_eq_true', Bool.and_eq_false_iff, Option.isNone_eq_false_iff,
      Option.isSome_iff_ne_none, or_assoc]
  have hspace : r.inNamespace.all (liesIn t.containingNamespace) = true ↔
      ∀ space, r.inNamespace = some space →
        Text.segments '.' space.toList <+: Text.segments '.' t.containingNamespace.toList := by
    simp only [Option.all_eq_true, liesIn_iff, Text.segments_prefix_iff]
  have htype : r.ofType.all (fun type => TypeText.baseName t.containingType.toList == type.toList) =
      true ↔
      ∀ type, r.ofType = some type → TypeText.HasBaseName t.containingType.toList type.toList := by
    simp only [Option.all_eq_true, beq_iff_eq, TypeText.baseName_eq_iff]
  have hmember : r.member.all (t.name == ·) = true ↔
      ∀ name, r.member = some name → t.name = name := by
    simp only [Option.all_eq_true, beq_iff_eq]
  rw [accepts, Bool.and_eq_true, Bool.and_eq_true, Bool.and_eq_true, hset, hspace, htype, hmember]
  simp only [and_assoc]

end ExclusionRule

end MethodRoles
