import Mathlib.Data.List.Forall2
import Mathlib.Data.List.Induction
import Mathlib.Data.List.Nodup

/-!
# Lists

Something is done to the items of a list in order, and it may fail. It succeeds for the list if it
does for every item. Otherwise the error is that of the first item for which it fails.

Of the items of a list one may also keep the first appearance of each. Lists with the same first
appearances can stand for each other in a longer list, and what has appeared before adds nothing.
-/
namespace MethodRoles

/-! ## Up to the first error -/

namespace Traversal

variable {ε α β : Type} {f : α → Except ε β}

theorem mapM_cons_of_error {a : α} {e : ε} (h : f a = .error e) (items : List α) :
    (a :: items).mapM f = .error e := by
  rw [List.mapM_cons, h]
  rfl

theorem mapM_cons_of_ok {a : α} {b : β} (h : f a = .ok b) (items : List α) :
    (a :: items).mapM f = (items.mapM f).map (b :: ·) := by
  rw [List.mapM_cons, h]
  cases items.mapM f <;> rfl

theorem map_eq_error_iff {γ : Type} {x : Except ε β} {g : β → γ} {e : ε} :
    x.map g = .error e ↔ x = .error e := by
  cases x <;> simp [Except.map]

theorem map_eq_ok_iff {γ : Type} {x : Except ε β} {g : β → γ} {c : γ} :
    x.map g = .ok c ↔ ∃ b, x = .ok b ∧ c = g b := by
  cases x <;> simp [Except.map, eq_comm]

theorem mapM_eq_ok_iff {items : List α} {results : List β} :
    items.mapM f = .ok results ↔ List.Forall₂ (fun a b => f a = .ok b) items results := by
  induction items generalizing results with
  | nil => simp [pure, Except.pure, eq_comm]
  | cons a items ih =>
    rw [List.forall₂_cons_left_iff]
    cases ha : f a with
    | error e => simp [mapM_cons_of_error ha]
    | ok b => simp [mapM_cons_of_ok ha, map_eq_ok_iff, ih]

theorem mapM_eq_error_iff {items : List α} {e : ε} :
    items.mapM f = .error e ↔
      ∃ before a rest, items = before ++ a :: rest ∧ (∀ x ∈ before, ∃ b, f x = .ok b) ∧
        f a = .error e := by
  constructor
  · intro h
    induction items with
    | nil => cases h
    | cons a items ih =>
      cases ha : f a with
      | error fault =>
        rw [mapM_cons_of_error ha] at h
        cases h
        exact ⟨[], a, items, rfl, by simp, ha⟩
      | ok b =>
        rw [mapM_cons_of_ok ha, map_eq_error_iff] at h
        obtain ⟨before, x, rest, rfl, hbefore, hx⟩ := ih h
        exact ⟨a :: before, x, rest, rfl, by simpa [ha] using hbefore, hx⟩
  · rintro ⟨before, a, rest, rfl, hbefore, ha⟩
    induction before with
    | nil => exact mapM_cons_of_error ha rest
    | cons x before ih =>
      obtain ⟨b, hb⟩ := hbefore x (by simp)
      rw [List.cons_append, mapM_cons_of_ok hb, map_eq_error_iff]
      exact ih fun y hy => hbefore y (by simp [hy])

end Traversal

/-! ## First appearances -/

section FirstAppearances

variable {α : Type} [DecidableEq α]

theorem eraseDups_append_cons {before after : List α} {a : α} (h : a ∈ before) :
    (before ++ a :: after).eraseDups = (before ++ after).eraseDups := by
  rw [List.eraseDups_append, List.eraseDups_append]
  simp [List.removeAll, h]

theorem eraseDups_filter (p : α → Bool) (items : List α) :
    (items.filter p).eraseDups = items.eraseDups.filter p := by
  induction hn : items.length using Nat.strongRecOn generalizing items with
  | ind n ih =>
    cases items with
    | nil => simp
    | cons a items =>
      have hlen := items.length_filter_le fun b => !b == a
      rw [List.length_cons] at hn
      have hrest := ih _ (by omega) (items.filter fun b => !b == a) rfl
      rw [List.eraseDups_cons]
      cases hp : p a with
      | true =>
        rw [List.filter_cons_of_pos hp, List.filter_cons_of_pos hp, List.eraseDups_cons, ← hrest,
          List.filter_filter, List.filter_filter]
        simp only [Bool.and_comm]
      | false =>
        -- what is equal to `a` is dropped by `p` anyway
        have hsame : (items.filter fun b => !b == a).filter p = items.filter p := by
          rw [List.filter_filter]
          refine List.filter_congr fun b _ => ?_
          by_cases hb : b = a
          · simp [hb, hp]
          · simp [hb]
        rw [List.filter_cons_of_neg (by simp [hp]), List.filter_cons_of_neg (by simp [hp]), ← hrest,
          hsame]

/-- An item that comes later is kept if it has not appeared before. -/
theorem eraseDups_append_eq (a b : List α) :
    (a ++ b).eraseDups =
      a.eraseDups ++ b.eraseDups.filter fun item => decide (item ∉ a.eraseDups) := by
  rw [List.eraseDups_append, List.removeAll, eraseDups_filter]
  simp

theorem eraseDups_append_singleton (items : List α) (a : α) :
    (items ++ [a]).eraseDups = if a ∈ items then items.eraseDups else items.eraseDups ++ [a] := by
  rw [eraseDups_append_eq]
  split
  · next h => simp [h, List.eraseDups_cons]
  · next h => simp [h, List.eraseDups_cons]

theorem nodup_eraseDups (items : List α) : items.eraseDups.Nodup := by
  induction hn : items.length using Nat.strongRecOn generalizing items with
  | ind n ih =>
    cases items with
    | nil => simp
    | cons a items =>
      have hlen := items.length_filter_le fun b => !b == a
      rw [List.length_cons] at hn
      rw [List.eraseDups_cons, List.nodup_cons]
      exact ⟨by simp, ih _ (by omega) _ rfl⟩

/-- The same items appear for the first time in the same order. -/
def SameFirsts (a b : List α) : Prop := a.eraseDups = b.eraseDups

namespace SameFirsts

variable {a a' b b' c : List α}

theorem refl (a : List α) : SameFirsts a a := rfl

theorem trans (h : SameFirsts a b) (h' : SameFirsts b c) : SameFirsts a c := Eq.trans h h'

theorem append (h : SameFirsts a a') (h' : SameFirsts b b') : SameFirsts (a ++ b) (a' ++ b') := by
  have ha : a.eraseDups = a'.eraseDups := h
  have hb : b.eraseDups = b'.eraseDups := h'
  rw [SameFirsts, eraseDups_append_eq, eraseDups_append_eq, ha, hb]

theorem flatMap {β γ : Type} {g : β → List α} {g' : γ → List α} {l : List β} {l' : List γ}
    (h : List.Forall₂ (fun x y => SameFirsts (g x) (g' y)) l l') :
    SameFirsts (l.flatMap g) (l'.flatMap g') := by
  induction h with
  | nil => exact refl []
  | cons hxy _ ih => exact hxy.append ih

theorem eq_nil_iff (h : SameFirsts a b) : a = [] ↔ b = [] := by
  have hmem : ∀ item, item ∈ a ↔ item ∈ b := by
    intro item
    rw [← List.mem_eraseDups, show a.eraseDups = b.eraseDups from h, List.mem_eraseDups]
  simp only [List.eq_nil_iff_forall_not_mem, hmem]

/-- What has appeared before adds nothing. -/
theorem append_of_subset (h : b ⊆ a) : SameFirsts (a ++ b) a := by
  have hnone : (b.eraseDups.filter fun item => decide (item ∉ a.eraseDups)) = [] := by
    rw [List.filter_eq_nil_iff]
    intro item hitem
    simpa using h (List.mem_eraseDups.1 hitem)
  rw [SameFirsts, eraseDups_append_eq, hnone, List.append_nil]

theorem eraseDups (a : List α) : SameFirsts a.eraseDups a := by
  induction a using List.reverseRecOn with
  | nil => exact refl []
  | append_singleton a item ih =>
    have hmem : item ∈ a.eraseDups ↔ item ∈ a := List.mem_eraseDups
    have hidem : a.eraseDups.eraseDups = a.eraseDups := ih
    rw [SameFirsts, eraseDups_append_singleton]
    split
    · exact hidem
    · next h => rw [eraseDups_append_singleton, hidem, if_neg (mt hmem.1 h)]

end SameFirsts

theorem eraseDups_append_eraseDups (a b : List α) :
    (a.eraseDups ++ b.eraseDups).eraseDups = (a ++ b).eraseDups :=
  (SameFirsts.eraseDups a).append (SameFirsts.eraseDups b)

end FirstAppearances

end MethodRoles
