import Mathlib.Data.List.TakeWhile
import MethodRoles.Text

/-!
# Parts of texts

Cut texts are told by what the parts put together give. The segments of a text are its pieces
between separators, so that one text has the first segments of another exactly if it is the whole of
it or ends at a separator in it. A trimmed text is what stands between blanks and has no blank at
its own ends. Lines are read back as they were written, unless one of them holds a line feed.
-/
namespace MethodRoles.Text

/-! ## Segments -/

theorem segments_eq_splitOn (sep : Char) (cs : List Char) : segments sep cs = cs.splitOn sep := by
  induction cs with
  | nil => rfl
  | cons c cs ih =>
    rw [segments, List.splitOn_cons_eq_if_modifyHead, ← ih]
    by_cases hc : c = sep
    · simp [hc]
    · cases hs : segments sep cs with
      | nil => exact absurd hs (segments_ne_nil sep cs)
      | cons piece pieces => simp [hc]

theorem segments_append_sep (sep : Char) (front rest : List Char) :
    segments sep (front ++ sep :: rest) = segments sep front ++ segments sep rest := by
  simp only [segments_eq_splitOn, List.splitOn_append_cons_self]

theorem intercalate_segments (sep : Char) (cs : List Char) :
    [sep].intercalate (segments sep cs) = cs := by
  rw [segments_eq_splitOn, List.intercalate_splitOn]

theorem intercalate_append {sep : List Char} {front rest : List (List Char)} (hfront : front ≠ [])
    (hrest : rest ≠ []) :
    sep.intercalate (front ++ rest) = sep.intercalate front ++ sep ++ sep.intercalate rest := by
  induction front with
  | nil => exact absurd rfl hfront
  | cons piece front ih =>
    cases front with
    | nil =>
      rw [List.singleton_append, List.intercalate_cons_of_ne_nil hrest, List.intercalate_singleton]
    | cons next front =>
      rw [List.cons_append, List.cons_append, List.intercalate_cons_cons, ← List.cons_append,
        ih (List.cons_ne_nil _ _), List.intercalate_cons_cons]
      simp only [List.append_assoc]

/-- A text has the segments of another first exactly if it is that text or goes on with a separator
after it. -/
theorem segments_prefix_iff {sep : Char} {outer inner : List Char} :
    segments sep outer <+: segments sep inner ↔
      inner = outer ∨ ∃ rest, inner = outer ++ sep :: rest := by
  constructor
  · rintro ⟨more, hmore⟩
    have hinner := intercalate_segments sep inner
    rw [← hmore] at hinner
    by_cases hnil : more = []
    · rw [hnil, List.append_nil, intercalate_segments] at hinner
      exact .inl hinner.symm
    · rw [intercalate_append (segments_ne_nil sep outer) hnil, intercalate_segments] at hinner
      exact .inr ⟨_, by rw [← hinner, List.append_assoc, List.singleton_append]⟩
  · rintro (rfl | ⟨rest, rfl⟩)
    · exact List.prefix_refl _
    · rw [segments_append_sep]
      exact List.prefix_append _ _

/-! ## Front parts -/

theorem not_mem_of_all {p : Char → Bool} {cs : List Char} (h : cs.all p = true) {c : Char}
    (hc : p c = false) :
    c ∉ cs := by
  intro hmem
  rw [List.all_eq_true.1 h c hmem] at hc
  cases hc

/-- A text is cut at the first character that fails a condition. -/
theorem takeWhile_eq_iff {p : Char → Bool} {cs front : List Char} :
    cs.takeWhile p = front ↔ ∃ rest, cs = front ++ rest ∧ (∀ c ∈ front, p c = true) ∧
      ∀ c ∈ rest.head?, p c = false := by
  constructor
  · rintro rfl
    refine ⟨cs.dropWhile p, List.takeWhile_append_dropWhile.symm, fun c => List.mem_takeWhile_imp,
      ?_⟩
    intro c hc
    have hnot := List.head?_dropWhile_not p cs
    rw [Option.mem_def.1 hc] at hnot
    exact hnot
  · rintro ⟨rest, rfl, hfront, hrest⟩
    rw [List.takeWhile_append_of_pos hfront]
    cases rest with
    | nil => simp
    | cons c rest => simp [hrest c rfl]

theorem dropWhile_eq_iff {p : Char → Bool} {cs rest : List Char} :
    cs.dropWhile p = rest ↔ ∃ front, cs = front ++ rest ∧ (∀ c ∈ front, p c = true) ∧
      ∀ c ∈ rest.head?, p c = false := by
  constructor
  · rintro rfl
    obtain ⟨rest, hcs, hfront, hrest⟩ := takeWhile_eq_iff.1 (rfl : cs.takeWhile p = _)
    obtain rfl : cs.dropWhile p = rest :=
      List.append_cancel_left (List.takeWhile_append_dropWhile.trans hcs)
    exact ⟨_, hcs, hfront, hrest⟩
  · rintro ⟨front, rfl, hfront, hrest⟩
    rw [List.dropWhile_append_of_pos hfront]
    cases rest with
    | nil => rfl
    | cons c rest => simp [hrest c rfl]

theorem dropWhile_ne_append {stop : Char} {front : List Char} (h : stop ∉ front)
    (rest : List Char) :
    (front ++ stop :: rest).dropWhile (· ≠ stop) = stop :: rest := by
  refine dropWhile_eq_iff.2 ⟨front, rfl, fun c hc => ?_, by simp⟩
  exact decide_eq_true (ne_of_mem_of_not_mem hc h)

theorem dropWhile_ne_eq_nil {stop : Char} {cs : List Char} (h : stop ∉ cs) :
    cs.dropWhile (· ≠ stop) = [] := by
  rw [List.dropWhile_eq_nil_iff]
  intro c hc
  exact decide_eq_true (ne_of_mem_of_not_mem hc h)

theorem takeWhile_ne_append {stop : Char} {front : List Char} (h : stop ∉ front)
    (rest : List Char) :
    (front ++ rest).takeWhile (· ≠ stop) = front ++ rest.takeWhile (· ≠ stop) := by
  refine List.takeWhile_append_of_pos fun c hc => ?_
  exact decide_eq_true (ne_of_mem_of_not_mem hc h)

theorem takeWhile_ne_append_of_mem {stop : Char} {front : List Char} (h : stop ∈ front)
    (rest : List Char) :
    (front ++ rest).takeWhile (· ≠ stop) = front.takeWhile (· ≠ stop) := by
  obtain ⟨before, after, rfl, hbefore⟩ := List.eq_append_cons_of_mem h
  rw [List.append_assoc, takeWhile_ne_append hbefore, takeWhile_ne_append hbefore]
  simp

/-! ## The last segment -/

theorem segments_of_not_mem {sep : Char} {cs : List Char} (h : sep ∉ cs) :
    segments sep cs = [cs] := by
  rw [segments_eq_splitOn]
  exact List.splitOn_eq_singleton h

/-- The last segment is found from the end of a text. -/
theorem getLast_segments (sep : Char) (cs : List Char) :
    (segments sep cs).getLast (segments_ne_nil sep cs) =
    (cs.reverse.takeWhile (· ≠ sep)).reverse := by
  by_cases hmem : sep ∈ cs
  · obtain ⟨after, before, hcs, hafter⟩ := List.eq_append_cons_of_mem (List.mem_reverse.2 hmem)
    have hsplit : cs = before.reverse ++ sep :: after.reverse := by
      rw [← List.reverse_reverse cs, hcs]
      simp
    have hsegments : segments sep cs = segments sep before.reverse ++ [after.reverse] := by
      rw [hsplit, segments_append_sep, segments_of_not_mem (mt List.mem_reverse.1 hafter)]
    rw [hcs, takeWhile_ne_append hafter]
    simp [hsegments]
  · have hall := takeWhile_ne_append (mt List.mem_reverse.1 hmem) []
    rw [List.append_nil, List.takeWhile_nil, List.append_nil] at hall
    rw [hall, List.reverse_reverse]
    simp [segments_of_not_mem hmem]

/-! ## Blanks at the ends -/

/-- `core` stands between blanks in a text and has no blank at its own ends. -/
def TrimsTo (cs core : List Char) : Prop :=
  ∃ before after, cs = before ++ core ++ after ∧
    (∀ c ∈ before, isBlank c = true) ∧ (∀ c ∈ after, isBlank c = true) ∧
    (∀ c ∈ core.head?, isBlank c = false) ∧ ∀ c ∈ core.getLast?, isBlank c = false

theorem trimsTo_trim (cs : List Char) : TrimsTo cs (trim cs) := by
  obtain ⟨before, hcs, hbefore, hhead⟩ := dropWhile_eq_iff.1 (rfl : trimStart cs = _)
  obtain ⟨after, hmid, hafter, hlast⟩ :=
    dropWhile_eq_iff.1 (rfl : trimStart (trimStart cs).reverse = _)
  have hmid : trimStart cs = trim cs ++ after.reverse := by
    rw [trim, trimEnd, ← List.reverse_append, ← hmid, List.reverse_reverse]
  refine ⟨before, after.reverse, ?_, hbefore, fun c hc => hafter c (List.mem_reverse.1 hc), ?_, ?_⟩
  · rw [List.append_assoc, ← hmid]
    exact hcs
  · intro c hc
    refine hhead c ?_
    rw [hmid, List.head?_append, Option.mem_def.1 hc]
    rfl
  · intro c hc
    exact hlast c (by rwa [← List.getLast?_reverse])

theorem TrimsTo.trim_eq {cs core : List Char} (h : TrimsTo cs core) : trim cs = core := by
  obtain ⟨before, after, rfl, hbefore, hafter, hhead, hlast⟩ := h
  cases core with
  | nil =>
    -- nothing but blanks
    have hnil : trimStart (before ++ [] ++ after) = [] := by
      rw [trimStart, List.dropWhile_eq_nil_iff]
      simpa [or_imp, forall_and] using ⟨hbefore, hafter⟩
    rw [trim, hnil]
    rfl
  | cons c core =>
    have hstart : trimStart (before ++ (c :: core) ++ after) = (c :: core) ++ after := by
      refine dropWhile_eq_iff.2 ⟨before, List.append_assoc _ _ _, hbefore, ?_⟩
      simpa using hhead
    have hend : trimStart ((c :: core) ++ after).reverse = (c :: core).reverse := by
      refine dropWhile_eq_iff.2 ⟨after.reverse, List.reverse_append, ?_, ?_⟩
      · intro d hd
        exact hafter d (List.mem_reverse.1 hd)
      · rwa [List.head?_reverse]
    rw [trim, trimEnd, hstart, hend, List.reverse_reverse]

theorem trim_eq_iff {cs core : List Char} : trim cs = core ↔ TrimsTo cs core :=
  ⟨fun h => h ▸ trimsTo_trim cs, TrimsTo.trim_eq⟩

theorem trim_append_of_blank {before : List Char} (h : ∀ c ∈ before, isBlank c = true)
    (cs : List Char) :
    trim (before ++ cs) = trim cs := by
  rw [trim, trimStart, List.dropWhile_append_of_pos h]
  rfl

theorem trim_eq_self {cs : List Char} (h : ∀ c ∈ cs, isBlank c = false) : trim cs = cs :=
  trim_eq_iff.2 ⟨[], [], by simp, by simp, by simp, fun c hc => h c (List.mem_of_mem_head? hc),
    fun c hc => h c (List.mem_of_getLast? hc)⟩

/-!
## Lines

Lines that are written one after the other are read back as they were, unless one of them holds a
line feed. Each line feed inside a line makes one line more.
-/

theorem toList_ofLines (xs : List String) :
    (ofLines xs).toList = xs.flatMap fun line => line.toList ++ ['\n'] := by
  simp [ofLines, List.flatMap_map]

theorem ofLines_nil : ofLines [] = "" := rfl

theorem ofLines_cons (x : String) (xs : List String) :
    ofLines (x :: xs) = x ++ "\n" ++ ofLines xs := by
  simp [ofLines]

theorem ofLines_append (xs ys : List String) : ofLines (xs ++ ys) = ofLines xs ++ ofLines ys := by
  simp [ofLines]

theorem ofLines_map {α : Type} (f : α → String) (items : List α) :
    ofLines (items.map f) = String.join (items.map fun a => f a ++ "\n") := by
  rw [ofLines, List.map_map]
  rfl

theorem ofLines_flatMap {α : Type} (f : α → List String) (items : List α) :
    ofLines (items.flatMap f) = String.join (items.map fun a => ofLines (f a)) := by
  induction items with
  | nil => rfl
  | cons a items ih => rw [List.flatMap_cons, ofLines_append, ih, List.map_cons, String.join_cons]

/-- A line goes as far as the first line feed. -/
theorem linesFrom_append {body : List Char} (h : '\n' ∉ body) (line rest : List Char) :
    linesFrom line (body ++ '\n' :: rest) =
      closeLine (body.reverse ++ line) :: linesFrom [] rest := by
  induction body generalizing line with
  | nil => simp [linesFrom]
  | cons c body ih =>
    rw [List.mem_cons, not_or] at h
    rw [List.cons_append, linesFrom, if_neg (Ne.symm h.1), ih h.2]
    simp

theorem closeLine_reverse {line : List Char} (h : line.getLast? ≠ some '\r') :
    closeLine line.reverse = line := by
  rw [← List.head?_reverse] at h
  unfold closeLine
  split
  · next rest hline =>
    rw [hline] at h
    exact absurd rfl h
  · exact line.reverse_reverse

theorem lines_ofLines {xs : List String} (hreturn : ∀ x ∈ xs, x.toList.getLast? ≠ some '\r')
    (hfeed : ∀ x ∈ xs, '\n' ∉ x.toList) : lines (ofLines xs) = xs := by
  rw [lines, toList_ofLines]
  induction xs with
  | nil => rfl
  | cons x xs ih =>
    rw [List.forall_mem_cons] at hreturn hfeed
    rw [List.flatMap_cons, List.append_assoc, List.singleton_append, linesFrom_append hfeed.1,
      List.append_nil, closeLine_reverse hreturn.1, List.map_cons, String.ofList_toList,
      ih hreturn.2 hfeed.2]

theorem length_linesFrom_append (cs line rest : List Char) :
    (linesFrom line (cs ++ '\n' :: rest)).length =
      cs.count '\n' + 1 + (linesFrom [] rest).length := by
  induction cs generalizing line with
  | nil => simp [linesFrom, Nat.add_comm]
  | cons c cs ih =>
    rw [List.cons_append, linesFrom]
    by_cases hc : c = '\n'
    · rw [if_pos hc, List.length_cons, ih, hc, List.count_cons_self]
      omega
    · rw [if_neg hc, ih, List.count_cons_of_ne hc]

/-- There is a line for each one that was written and one more for each line feed in them. -/
theorem length_lines_ofLines (xs : List String) :
    (lines (ofLines xs)).length = xs.length + (xs.flatMap String.toList).count '\n' := by
  rw [lines, List.length_map, toList_ofLines]
  induction xs with
  | nil => rfl
  | cons x xs ih =>
    rw [List.flatMap_cons, List.append_assoc, List.singleton_append, length_linesFrom_append, ih,
      List.flatMap_cons, List.count_append, List.length_cons]
    omega

theorem lines_ofLines_iff {xs : List String} (hreturn : ∀ x ∈ xs, x.toList.getLast? ≠ some '\r') :
    lines (ofLines xs) = xs ↔ ∀ x ∈ xs, '\n' ∉ x.toList := by
  refine ⟨fun h => ?_, lines_ofLines hreturn⟩
  have hlength := length_lines_ofLines xs
  rw [h] at hlength
  have hcount : (xs.flatMap String.toList).count '\n' = 0 := by omega
  rw [List.count_eq_zero, List.mem_flatMap] at hcount
  exact fun x hx hfeed => hcount ⟨x, hx, hfeed⟩

end MethodRoles.Text
