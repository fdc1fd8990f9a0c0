import MethodRoles.Proofs.Text.Cutting
import MethodRoles.Role.Evidence

/-!
# Evidence as lines

The texts of the evidence are made of lines, one for each entry. A reader who takes them apart finds
these lines again exactly if no entry holds a line feed, whatever else it holds: the closing quote
keeps a carriage return from the end of the line, and the words in front tell calls and expressions
apart. The entries can then be told from the text.
-/
namespace MethodRoles

namespace Seen

/-- No text holds a line feed. -/
def Unbroken (s : Seen) : Prop := ∀ text ∈ s.toList, '\n' ∉ text.toList

theorem beq_of_toList_eq {s t : Seen} (h : s.toList = t.toList) : (s == t) = true := by
  show (s.items == t.items) = true
  rw [Array.toList_inj.1 h, beq_self_eq_true]

end Seen

namespace Evidence

/-- An entry behind some words that end in a quote, and the quote after it. -/
def quoted (words text : String) : String := words ++ text ++ "'"

variable {words other : String}

theorem quoted_feed (words text : String) : quoted words text ++ "\n" = words ++ text ++ "'\n" := by
  have hend : "'" ++ "\n" = "'\n" := by decide
  rw [quoted, String.append_assoc, hend]

theorem toList_quoted (words text : String) :
    (quoted words text).toList = words.toList ++ (text.toList ++ ['\'']) := by
  simp [quoted]

/-- No line ends in a carriage return, since a quote comes after it. -/
theorem getLast?_quoted (words text : String) :
    (quoted words text).toList.getLast? = some '\'' := by
  rw [toList_quoted, ← List.append_assoc, List.getLast?_concat]

theorem feed_mem_quoted (h : '\n' ∉ words.toList) {text : String} :
    '\n' ∈ (quoted words text).toList ↔ '\n' ∈ text.toList := by
  simp [toList_quoted, h]

theorem quoted_inj {s t : String} (h : quoted words s = quoted words t) : s = t := by
  rw [← String.toList_inj, toList_quoted, toList_quoted] at h
  exact String.toList_inj.1 (List.append_cancel_right (List.append_cancel_left h))

/-- Entries of two sorts can be told apart if no line is of both. -/
theorem quoted_append_inj (hne : ∀ s t, quoted words s ≠ quoted other t)
    {xs xs' ys ys' : List String} (h : xs.map (quoted words) ++ ys.map (quoted other) =
      xs'.map (quoted words) ++ ys'.map (quoted other)) :
    xs = xs' ∧ ys = ys' := by
  induction xs generalizing xs' with
  | nil =>
    cases xs' with
    | nil => exact ⟨rfl, (List.map_inj_right fun s t => quoted_inj).1 h⟩
    | cons x' xs' =>
      cases ys with
      | nil => cases h
      | cons y ys => exact absurd (List.cons.inj h).1.symm (hne x' y)
  | cons x xs ih =>
    cases xs' with
    | nil =>
      cases ys' with
      | nil => cases h
      | cons y' ys' => exact absurd (List.cons.inj h).1 (hne x y')
    | cons x' xs' =>
      obtain ⟨hhead, htail⟩ := List.cons.inj h
      obtain ⟨rfl, hys⟩ := ih htail
      exact ⟨by rw [quoted_inj hhead], hys⟩

/-! ## Entries of some sorts -/

/-- The lines for entries of some sorts, each of which has words of its own. -/
def listing (sorts : List (String × Seen)) : List String :=
  sorts.flatMap fun sort => sort.2.toList.map (quoted sort.1)

variable {sorts : List (String × Seen)}

theorem mem_listing {line : String} :
    line ∈ listing sorts ↔ ∃ sort ∈ sorts, ∃ text ∈ sort.2.toList, quoted sort.1 text = line := by
  simp only [listing, List.mem_flatMap, List.mem_map]

theorem lines_listing_iff (hwords : ∀ sort ∈ sorts, '\n' ∉ sort.1.toList) :
    Text.lines (Text.ofLines (listing sorts)) = listing sorts ↔
      ∀ sort ∈ sorts, sort.2.Unbroken := by
  have hreturn : ∀ line ∈ listing sorts, line.toList.getLast? ≠ some '\r' := by
    intro line hline
    obtain ⟨sort, -, text, -, rfl⟩ := mem_listing.1 hline
    rw [getLast?_quoted]
    decide
  rw [Text.lines_ofLines_iff hreturn]
  constructor
  · intro h sort hsort text htext hfeed
    exact h _ (mem_listing.2 ⟨sort, hsort, text, htext, rfl⟩)
      ((feed_mem_quoted (hwords sort hsort)).2 hfeed)
  · intro h line hline hfeed
    obtain ⟨sort, hsort, text, htext, rfl⟩ := mem_listing.1 hline
    exact h sort hsort text htext ((feed_mem_quoted (hwords sort hsort)).1 hfeed)

theorem count_quoted (h : '\n' ∉ words.toList) (texts : List String) :
    ((texts.map (quoted words)).flatMap String.toList).count '\n' =
      (texts.flatMap String.toList).count '\n' := by
  induction texts with
  | nil => rfl
  | cons text texts ih => simp [List.count_append, toList_quoted, List.count_eq_zero.2 h, ih]

theorem length_lines_listing (hwords : ∀ sort ∈ sorts, '\n' ∉ sort.1.toList) :
    (Text.lines (Text.ofLines (listing sorts))).length =
      (sorts.flatMap (·.2.toList)).length +
        ((sorts.flatMap (·.2.toList)).flatMap String.toList).count '\n' := by
  rw [Text.length_lines_ofLines]
  induction sorts with
  | nil => rfl
  | cons sort sorts ih =>
    rw [List.forall_mem_cons] at hwords
    have hlisting : listing (sort :: sorts) = sort.2.toList.map (quoted sort.1) ++ listing sorts :=
      rfl
    have hrest := ih hwords.2
    rw [hlisting, List.flatMap_cons, List.flatMap_append, List.flatMap_append, List.count_append,
      List.count_append, List.length_append, List.length_append, List.length_map,
      count_quoted hwords.1]
    omega

/-! ## The two texts -/

/-- The calls that integrate. -/
def integrationSorts (e : Evidence) : List (String × Seen) :=
  [("- Integration: call to '", e.integrations)]

/-- The calls that operate, and then the expressions. -/
def operationSorts (e : Evidence) : List (String × Seen) :=
  [("- Operation: calling API '", e.operations), ("- Operation: expression '", e.expressions)]

theorem integrationText_eq (e : Evidence) :
    e.integrationText = Text.ofLines (listing e.integrationSorts) := by
  have hline : integrationLine = fun name => quoted "- Integration: call to '" name ++ "\n" := by
    funext name
    exact (quoted_feed _ _).symm
  rw [integrationText, hline]
  simp only [Text.ofLines, listing, integrationSorts, List.flatMap_cons, List.flatMap_nil,
    List.append_nil, List.map_map, Function.comp_def]

theorem operationText_eq (e : Evidence) :
    e.operationText = Text.ofLines (listing e.operationSorts) := by
  have hoperation : operationLine =
      fun name => quoted "- Operation: calling API '" name ++ "\n" := by
    funext name
    exact (quoted_feed _ _).symm
  have hexpression : expressionLine =
      fun text => quoted "- Operation: expression '" text ++ "\n" := by
    funext text
    exact (quoted_feed _ _).symm
  rw [operationText, hoperation, hexpression]
  simp only [Text.ofLines, listing, operationSorts, List.flatMap_cons, List.flatMap_nil,
    List.append_nil, List.map_append, List.map_map, Function.comp_def]

theorem feedless_integrationSorts (e : Evidence) :
    ∀ sort ∈ e.integrationSorts, '\n' ∉ sort.1.toList := by
  simp only [integrationSorts, List.forall_mem_singleton]
  decide

theorem feedless_operationSorts (e : Evidence) :
    ∀ sort ∈ e.operationSorts, '\n' ∉ sort.1.toList := by
  simp only [operationSorts, List.forall_mem_cons]
  exact ⟨by decide, by decide, by simp⟩

theorem lines_integrationText_iff (e : Evidence) :
    Text.lines e.integrationText = e.integrations.toList.map (quoted "- Integration: call to '") ↔
      e.integrations.Unbroken := by
  have hlines := lines_listing_iff e.feedless_integrationSorts
  rw [← integrationText_eq] at hlines
  simpa [listing, integrationSorts] using hlines

theorem lines_operationText_iff (e : Evidence) :
    Text.lines e.operationText =
        e.operations.toList.map (quoted "- Operation: calling API '") ++
          e.expressions.toList.map (quoted "- Operation: expression '") ↔
      e.operations.Unbroken ∧ e.expressions.Unbroken := by
  have hlines := lines_listing_iff e.feedless_operationSorts
  rw [← operationText_eq] at hlines
  simpa [listing, operationSorts] using hlines

theorem length_lines_integrationText (e : Evidence) :
    (Text.lines e.integrationText).length =
      e.integrations.size + (e.integrations.toList.flatMap String.toList).count '\n' := by
  have hlength := length_lines_listing e.feedless_integrationSorts
  rw [← integrationText_eq] at hlength
  simpa [integrationSorts, Seen.size, Seen.toList] using hlength

theorem length_lines_operationText (e : Evidence) :
    (Text.lines e.operationText).length =
      e.operations.size + e.expressions.size +
        ((e.operations.toList ++ e.expressions.toList).flatMap String.toList).count '\n' := by
  have hlength := length_lines_listing e.feedless_operationSorts
  rw [← operationText_eq] at hlength
  simpa [operationSorts, Seen.size, Seen.toList] using hlength

/-- A line for a call is no line for an expression: the words differ before an entry begins. -/
theorem operationLine_ne (name text : String) :
    quoted "- Operation: calling API '" name ≠ quoted "- Operation: expression '" text := by
  intro h
  have hfront := congrArg (·.toList.take 14) h
  simp only [toList_quoted] at hfront
  rw [List.take_append_of_le_length (by decide),
    List.take_append_of_le_length (by decide)] at hfront
  exact absurd hfront (by decide)

theorem integrations_eq_of_text {e e' : Evidence} (he : e.integrations.Unbroken)
    (he' : e'.integrations.Unbroken) (h : e.integrationText = e'.integrationText) :
    (e.integrations == e'.integrations) = true := by
  have hlines := e.lines_integrationText_iff.2 he
  rw [h, e'.lines_integrationText_iff.2 he'] at hlines
  exact Seen.beq_of_toList_eq ((List.map_inj_right fun s t => quoted_inj).1 hlines.symm)

theorem operations_eq_of_text {e e' : Evidence}
    (he : e.operations.Unbroken ∧ e.expressions.Unbroken)
    (he' : e'.operations.Unbroken ∧ e'.expressions.Unbroken)
    (h : e.operationText = e'.operationText) :
    (e.operations == e'.operations) = true ∧ (e.expressions == e'.expressions) = true := by
  have hlines := e.lines_operationText_iff.2 he
  rw [h, e'.lines_operationText_iff.2 he'] at hlines
  obtain ⟨hoperations, hexpressions⟩ := quoted_append_inj operationLine_ne hlines.symm
  exact ⟨Seen.beq_of_toList_eq hoperations, Seen.beq_of_toList_eq hexpressions⟩

/-- Each of the two texts, taken apart, gives one line for each entry in order exactly if no entry
holds a line feed, and else one line more for each of them. Texts without one come from the same
entries if they are equal. -/
theorem texts_line_exact (e : Evidence) :
    (Text.lines e.integrationText = e.integrations.toList.map (quoted "- Integration: call to '") ↔
      e.integrations.Unbroken) ∧
    (Text.lines e.operationText =
        e.operations.toList.map (quoted "- Operation: calling API '") ++
          e.expressions.toList.map (quoted "- Operation: expression '") ↔
      e.operations.Unbroken ∧ e.expressions.Unbroken) ∧
    (Text.lines e.integrationText).length =
      e.integrations.size + (e.integrations.toList.flatMap String.toList).count '\n' ∧
    (Text.lines e.operationText).length =
      e.operations.size + e.expressions.size +
        ((e.operations.toList ++ e.expressions.toList).flatMap String.toList).count '\n' ∧
    ∀ e' : Evidence,
      (e.integrations.Unbroken → e'.integrations.Unbroken → e.integrationText = e'.integrationText →
        (e.integrations == e'.integrations) = true) ∧
      (e.operations.Unbroken ∧ e.expressions.Unbroken →
        e'.operations.Unbroken ∧ e'.expressions.Unbroken →
        e.operationText = e'.operationText →
        (e.operations == e'.operations) = true ∧ (e.expressions == e'.expressions) = true) :=
  ⟨e.lines_integrationText_iff, e.lines_operationText_iff, e.length_lines_integrationText,
    e.length_lines_operationText, fun _ => ⟨integrations_eq_of_text, operations_eq_of_text⟩⟩

end Evidence

end MethodRoles
