import MethodRoles.Sketch.Basic

/-!
# Sketches in order

A list of sketches is a forest. Its sketches and all that is below them stand in one listing, each
before what is below it. What comes at the place of a sketch in the listing is the whole listing of
that sketch, so that places can be told from sizes.
-/
namespace MethodRoles.Sketch

mutual

/-- A sketch and all that is below it, in the order of the text. -/
def preorder : Sketch → List Sketch
  | ⟨kind, text, target, children⟩ => ⟨kind, text, target, children⟩ :: preorderAll children

def preorderAll : List Sketch → List Sketch
  | [] => []
  | s :: rest => s.preorder ++ preorderAll rest

end

/-- The number of nodes of a sketch. -/
def size (s : Sketch) : Nat := s.preorder.length

/-- The places of sketches whose listings come one after another, the first of them at `first`. -/
def places (first : Nat) : List Sketch → List Nat
  | [] => []
  | s :: rest => first :: places (first + s.size) rest

-- sketches are recursive, so that this does not hold by definition
@[simp] theorem mk_fields (s : Sketch) : Sketch.mk s.kind s.text s.target s.children = s := by
  cases s
  rfl

theorem preorder_eq (s : Sketch) : s.preorder = s :: preorderAll s.children := by
  cases s
  rw [preorder]

@[simp] theorem preorderAll_nil : preorderAll [] = [] := by rw [preorderAll]

theorem preorderAll_cons (s : Sketch) (rest : List Sketch) :
    preorderAll (s :: rest) = s :: (preorderAll s.children ++ preorderAll rest) := by
  rw [preorderAll, preorder_eq, List.cons_append]

theorem preorderAll_eq_flatMap (forest : List Sketch) :
    preorderAll forest = forest.flatMap preorder := by
  induction forest with
  | nil => rw [preorderAll_nil, List.flatMap_nil]
  | cons s rest ih => rw [preorderAll, ih, List.flatMap_cons]

theorem size_eq (s : Sketch) : s.size = (preorderAll s.children).length + 1 := by
  rw [size, preorder_eq, List.length_cons]

theorem length_preorderAll_cons (s : Sketch) (rest : List Sketch) :
    (preorderAll (s :: rest)).length = s.size + (preorderAll rest).length := by
  rw [preorderAll, List.length_append, size]

/-- What holds of a forest if it holds of the children of its first sketch and of the other
sketches, holds of every forest. -/
@[elab_as_elim] theorem forest_induction {motive : List Sketch → Prop} (nil : motive [])
    (cons : ∀ s rest, motive s.children → motive rest → motive (s :: rest)) :
    ∀ forest, motive forest
  | [] => nil
  | ⟨kind, text, target, children⟩ :: rest =>
    cons ⟨kind, text, target, children⟩ rest (forest_induction nil cons children)
      (forest_induction nil cons rest)

/-- A sketch stands in front of its own listing. -/
theorem drop_of_getElem? {forest : List Sketch} {i : Nat} {s : Sketch}
    (h : (preorderAll forest)[i]? = some s) :
    ∃ after, (preorderAll forest).drop i = s :: (preorderAll s.children ++ after) := by
  induction forest using forest_induction generalizing i with
  | nil => simp at h
  | cons first rest ihchildren ihrest =>
    rw [preorderAll_cons] at h ⊢
    cases i with
    | zero =>
      obtain rfl : first = s := by simpa using h
      exact ⟨preorderAll rest, rfl⟩
    | succ i =>
      rw [List.getElem?_cons_succ] at h
      rw [List.drop_succ_cons]
      by_cases hi : i < (preorderAll first.children).length
      · rw [List.getElem?_append_left hi] at h
        obtain ⟨after, hafter⟩ := ihchildren h
        refine ⟨after ++ preorderAll rest, ?_⟩
        rw [List.drop_append_of_le_length (by omega), hafter]
        simp
      · rw [List.getElem?_append_right (by omega)] at h
        obtain ⟨after, hafter⟩ := ihrest h
        refine ⟨after, ?_⟩
        rw [List.drop_append, List.drop_eq_nil_of_le (by omega), hafter, List.nil_append]

/-! ## Places -/

/-- The listing of a forest stands in `all` at the given place. -/
def ListedAt (all : List Sketch) (first : Nat) (forest : List Sketch) : Prop :=
  ∃ after, all.drop first = preorderAll forest ++ after

theorem listedAt_preorderAll (forest : List Sketch) : ListedAt (preorderAll forest) 0 forest :=
  ⟨[], by rw [List.drop_zero, List.append_nil]⟩

theorem listedAt_children {forest : List Sketch} {i : Nat} {s : Sketch}
    (h : (preorderAll forest)[i]? = some s) : ListedAt (preorderAll forest) (i + 1) s.children := by
  obtain ⟨after, hafter⟩ := drop_of_getElem? h
  refine ⟨after, ?_⟩
  rw [← List.drop_drop, hafter, List.drop_succ_cons, List.drop_zero]

namespace ListedAt

variable {all forest rest : List Sketch} {s : Sketch} {first : Nat}

theorem getElem?_first (h : ListedAt all first (s :: rest)) : all[first]? = some s := by
  obtain ⟨after, hafter⟩ := h
  rw [← Nat.add_zero first, ← List.getElem?_drop, hafter, preorderAll_cons]
  rfl

theorem children (h : ListedAt all first (s :: rest)) : ListedAt all (first + 1) s.children := by
  obtain ⟨after, hafter⟩ := h
  refine ⟨preorderAll rest ++ after, ?_⟩
  rw [← List.drop_drop, hafter, preorderAll_cons, List.cons_append, List.drop_succ_cons,
    List.drop_zero, List.append_assoc]

theorem others (h : ListedAt all first (s :: rest)) : ListedAt all (first + s.size) rest := by
  obtain ⟨after, hafter⟩ := h
  refine ⟨after, ?_⟩
  rw [← List.drop_drop, hafter, preorderAll, List.append_assoc, size, List.drop_left]

/-- At each place stands a sketch, whose listing is a part of that of the forest. -/
theorem getElem?_of_mem_places (h : ListedAt all first forest) {c : Nat}
    (hc : c ∈ places first forest) :
    ∃ t, all[c]? = some t ∧ first ≤ c ∧ c + t.size ≤ first + (preorderAll forest).length := by
  induction forest generalizing first with
  | nil => simp [places] at hc
  | cons s rest ih =>
    rw [length_preorderAll_cons]
    rcases List.mem_cons.1 hc with rfl | hc
    · exact ⟨s, h.getElem?_first, Nat.le_refl _, by omega⟩
    · obtain ⟨t, ht, hle, hend⟩ := ih h.others hc
      exact ⟨t, ht, by omega, by omega⟩

/-- The listing of a sketch ends before the places that come after its own. -/
theorem pairwise_places (h : ListedAt all first forest) :
    (places first forest).Pairwise fun c d => ∀ t, all[c]? = some t → c + t.size ≤ d := by
  induction forest generalizing first with
  | nil => exact .nil
  | cons s rest ih =>
    refine List.pairwise_cons.2 ⟨?_, ih h.others⟩
    intro d hd t ht
    obtain rfl : s = t := by simpa [h.getElem?_first] using ht
    obtain ⟨_, -, hle, -⟩ := h.others.getElem?_of_mem_places hd
    exact hle

end ListedAt

end MethodRoles.Sketch
