import MethodRoles.Proofs.Text.Cutting
import MethodRoles.Report

/-!
# Reports without their colours

The texts in a report may hold control sequences of their own, whole ones as well as broken ones.
What is put in for the colours neither completes nor cuts any of them. So a report that is stripped
of control sequences reads the same whether it has been coloured or not.
-/
namespace MethodRoles

namespace Paint

/-! ## Control sequences -/

/-- The codes of a control sequence are made of digits and semicolons. -/
def isCode (c : Char) : Bool := c.isDigit || c == ';'

/-- A control sequence: an escape character, a bracket, codes and the letter `m`. It is for `bare`
to say whether there may be no codes at all. -/
def IsSequence (bare : Bool) (seq : List Char) : Prop :=
  ∃ codes, seq = escapeChar :: '[' :: (codes ++ ['m']) ∧ (∀ c ∈ codes, isCode c = true) ∧
    (bare = true ∨ codes ≠ [])

/-- What comes after the control sequence that a text begins with, if it begins with one. -/
def afterSequence? (bare : Bool) : List Char → Option (List Char)
  | '\x1b' :: '[' :: cs =>
    match cs.dropWhile isCode with
    | 'm' :: rest => if bare || cs.head? != some 'm' then some rest else none
    | _ => none
  | _ => none

variable {bare : Bool} {seq again front cs rest tail : List Char} {c : Char}

theorem exists_sequence (h : afterSequence? bare cs = some rest) :
    ∃ seq, IsSequence bare seq ∧ cs = seq ++ rest := by
  rw [afterSequence?.eq_def] at h
  split at h
  · next cs =>
    split at h
    · next after hafter =>
      obtain ⟨codes, rfl, hcodes, -⟩ := Text.dropWhile_eq_iff.1 hafter
      split at h
      · next hcond =>
        obtain rfl : after = rest := Option.some.inj h
        refine ⟨_, ⟨codes, rfl, hcodes, ?_⟩, by simp [escapeChar]⟩
        rcases Bool.or_eq_true_iff.1 hcond with hbare | hhead
        · exact .inl hbare
        · refine .inr ?_
          rintro rfl
          simp at hhead
      · cases h
    · cases h
  · cases h

theorem afterSequence?_append (h : IsSequence bare seq) (rest : List Char) :
    afterSequence? bare (seq ++ rest) = some rest := by
  obtain ⟨codes, rfl, hcodes, hsome⟩ := h
  have hdrop : (codes ++ 'm' :: rest).dropWhile isCode = 'm' :: rest :=
    Text.dropWhile_eq_iff.2 ⟨codes, rfl, hcodes, by simp; decide⟩
  have hcond : (bare || (codes ++ 'm' :: rest).head? != some 'm') = true := by
    rcases hsome with rfl | hne
    · rfl
    · cases codes with
      | nil => exact absurd rfl hne
      | cons c codes =>
        have hc : c ≠ 'm' := by
          rintro rfl
          exact absurd (hcodes 'm' List.mem_cons_self) (by decide)
        simp [hc]
  have hseq : escapeChar :: '[' :: (codes ++ ['m']) ++ rest =
      '\x1b' :: '[' :: (codes ++ 'm' :: rest) := by
    simp [escapeChar]
  rw [hseq, afterSequence?, hdrop]
  exact if_pos hcond

theorem afterSequence?_eq_none_iff :
    afterSequence? bare cs = none ↔ ∀ seq rest, IsSequence bare seq → cs ≠ seq ++ rest := by
  constructor
  · rintro h seq rest hseq rfl
    rw [afterSequence?_append hseq] at h
    cases h
  · intro h
    rw [Option.eq_none_iff_forall_ne_some]
    intro rest hrest
    obtain ⟨seq, hseq, hcs⟩ := exists_sequence hrest
    exact h seq rest hseq hcs

/-- A text without its control sequences, which are taken out in one pass from left to right. -/
def strip (bare : Bool) : List Char → List Char
  | [] => []
  | c :: cs =>
    match _h : afterSequence? bare (c :: cs) with
    | some rest => strip bare rest
    | none => c :: strip bare cs
termination_by cs => cs.length
decreasing_by
  · obtain ⟨seq, ⟨codes, rfl, -⟩, hcs⟩ := exists_sequence _h
    rw [hcs, List.length_append, List.length_cons]
    omega
  · exact Nat.lt_succ_self _

theorem strip_sequence (h : IsSequence bare seq) (rest : List Char) :
    strip bare (seq ++ rest) = strip bare rest := by
  have hafter := afterSequence?_append h rest
  obtain ⟨codes, rfl, -⟩ := h
  rw [List.cons_append] at hafter ⊢
  rw [strip]
  split
  · next rest' hrest =>
    rw [hafter] at hrest
    rw [Option.some.inj hrest]
  · next hnone =>
    rw [hafter] at hnone
    cases hnone

theorem strip_cons (h : afterSequence? bare (c :: cs) = none) :
    strip bare (c :: cs) = c :: strip bare cs := by
  rw [strip]
  split
  · next rest hrest =>
    rw [h] at hrest
    cases hrest
  · rfl

/-- The characters that a sequence may go on with after its first one. -/
def goesOn (c : Char) : Bool := c == '[' || isCode c || c == 'm'

theorem IsSequence.eq_cons (h : IsSequence bare seq) :
    ∃ body, seq = escapeChar :: body ∧ ∀ c ∈ body, goesOn c = true := by
  obtain ⟨codes, rfl, hcodes, -⟩ := h
  refine ⟨_, rfl, ?_⟩
  simp only [List.mem_cons, List.mem_append, List.not_mem_nil, or_false]
  rintro c (rfl | hc | rfl)
  · rfl
  · simp [goesOn, hcodes c hc]
  · rfl

theorem escape_not_mem (h : ∀ c ∈ cs, goesOn c = true) : escapeChar ∉ cs :=
  fun hmem => absurd (h _ hmem) (by decide)

theorem afterSequence?_of_ne_escape (h : c ≠ escapeChar) (cs : List Char) :
    afterSequence? bare (c :: cs) = none := by
  rw [afterSequence?_eq_none_iff]
  intro seq rest hseq hcs
  obtain ⟨body, rfl, -⟩ := hseq.eq_cons
  exact h (List.cons.inj hcs).1

/-- All that does not begin with an escape character is passed on. -/
theorem strip_plain (h : escapeChar ∉ front) (rest : List Char) :
    strip bare (front ++ rest) = front ++ strip bare rest := by
  induction front with
  | nil => rfl
  | cons c front ih =>
    rw [List.mem_cons, not_or] at h
    rw [List.cons_append, strip_cons (afterSequence?_of_ne_escape (Ne.symm h.1) _), ih h.2,
      List.cons_append]

/-! ## Texts one after the other -/

/-- No sequence goes on into a text. -/
def Breaks (tail : List Char) : Prop := ∀ c ∈ tail.head?, goesOn c = false

theorem afterSequence?_append_eq_none (h : afterSequence? bare (c :: cs) = none)
    (htail : Breaks tail) :
    afterSequence? bare (c :: (cs ++ tail)) = none := by
  rw [afterSequence?_eq_none_iff] at h ⊢
  intro seq rest hseq hcs
  rw [← List.cons_append] at hcs
  rcases List.append_eq_append_iff.1 hcs with ⟨more, hmore, htail'⟩ | ⟨more, hmore, -⟩
  · cases more with
    | nil => exact h seq [] hseq (by rw [hmore, List.append_nil, List.append_nil])
    | cons d more =>
      -- the sequence would go on with the first character of the tail
      obtain ⟨body, hbody, hgoes⟩ := hseq.eq_cons
      rw [hmore] at hbody
      have hd : d ∈ body := by
        rw [← (List.cons.inj hbody).2]
        simp
      have hstops := htail d (by rw [htail']; rfl)
      rw [hgoes d hd] at hstops
      cases hstops
  · exact h seq more hseq hmore

theorem strip_append (cs : List Char) (htail : Breaks tail) :
    strip bare (cs ++ tail) = strip bare cs ++ strip bare tail := by
  fun_induction strip bare cs with
  | case1 => rfl
  | case2 c cs rest h ih =>
    obtain ⟨seq, hseq, hcs⟩ := exists_sequence h
    rw [hcs, List.append_assoc, strip_sequence hseq, ih]
  | case3 c cs h ih =>
    rw [List.cons_append, strip_cons (afterSequence?_append_eq_none h htail), ih, List.cons_append]

/-! ## Coloured texts -/

theorem isSequence_reset (bare : Bool) : IsSequence bare reset :=
  ⟨['0'], rfl, List.forall_mem_singleton.2 rfl, .inr (by decide)⟩

theorem isSequence_opening (bare : Bool) (s : Style) : IsSequence bare (opening s) := by
  refine ⟨s.codes.toList, rfl, ?_, ?_⟩
  · cases s <;> exact List.all_eq_true.1 (by decide)
  · cases s <;> exact .inr (by decide)

theorem reopen_reset (again rest : List Char) :
    reopen again (reset ++ rest) = reset ++ (again ++ reopen again rest) := by
  rw [← List.append_assoc]
  rfl

theorem reopen_cons (h : ∀ rest, c :: cs ≠ reset ++ rest) :
    reopen again (c :: cs) = c :: reopen again cs := by
  rw [reopen.eq_def]
  split
  · next heq => cases heq
  · next rest heq => exact absurd heq (h rest)
  · next heq => cases heq; rfl

theorem reopen_plain (h : escapeChar ∉ front) (rest : List Char) :
    reopen again (front ++ rest) = front ++ reopen again rest := by
  induction front with
  | nil => rfl
  | cons c front ih =>
    rw [List.mem_cons, not_or] at h
    have hreset : ∀ more, c :: (front ++ rest) ≠ reset ++ more :=
      fun more heq => h.1 (List.cons.inj heq).1.symm
    rw [List.cons_append, reopen_cons hreset, ih h.2, List.cons_append]

/-- What stands in front of the first reset stays in front. -/
theorem prefix_of_prefix_reopen (h : escapeChar ∉ front) (hfront : front <+: reopen again cs) :
    front <+: cs := by
  induction front generalizing cs with
  | nil => exact List.nil_prefix
  | cons c front ih =>
    rw [List.mem_cons, not_or] at h
    by_cases hreset : ∃ rest, cs = reset ++ rest
    · obtain ⟨rest, rfl⟩ := hreset
      rw [reopen_reset] at hfront
      exact absurd (List.cons_prefix_cons.1 hfront).1.symm h.1
    · cases cs with
      | nil => exact hfront
      | cons d cs =>
        rw [reopen_cons fun rest hrest => hreset ⟨rest, hrest⟩, List.cons_prefix_cons] at hfront
        exact List.cons_prefix_cons.2 ⟨hfront.1, ih h.2 hfront.2⟩

/-- The sequences that are put in again leave no trace. -/
theorem strip_reopen (hagain : IsSequence bare again) (cs : List Char) :
    strip bare (reopen again cs) = strip bare cs := by
  fun_induction strip bare cs with
  | case1 => rw [reopen, strip]
  | case2 c cs rest h ih =>
    obtain ⟨seq, hseq, hcs⟩ := exists_sequence h
    rw [hcs]
    by_cases hreset : seq = reset
    · rw [hreset, reopen_reset, strip_sequence (isSequence_reset bare), strip_sequence hagain, ih]
    · have hother : ∀ more, seq ++ rest ≠ reset ++ more := by
        intro more hmore
        have hrest := afterSequence?_append hseq rest
        rw [hmore, afterSequence?_append (isSequence_reset bare)] at hrest
        rw [Option.some.inj hrest] at hmore
        exact hreset (List.append_cancel_right hmore)
      obtain ⟨body, rfl, hbody⟩ := hseq.eq_cons
      rw [List.cons_append] at hother ⊢
      rw [reopen_cons hother, reopen_plain (escape_not_mem hbody), ← List.cons_append,
        strip_sequence hseq, ih]
  | case3 c cs h ih =>
    rw [afterSequence?_eq_none_iff] at h
    rw [reopen_cons fun rest => h reset rest (isSequence_reset bare), strip_cons, ih]
    -- a sequence after the change would have been one before it
    rw [afterSequence?_eq_none_iff]
    intro seq rest hseq hcs
    obtain ⟨body, rfl, hbody⟩ := hseq.eq_cons
    obtain ⟨rfl, hreopen⟩ := List.cons.inj hcs
    obtain ⟨more, rfl⟩ := prefix_of_prefix_reopen (escape_not_mem hbody) ⟨rest, hreopen.symm⟩
    exact h _ more hseq rfl

/-- A coloured text ends where it ends, whatever comes after it. -/
theorem strip_colored (s : Style) (cs tail : List Char) :
    strip bare (colored s cs ++ tail) = strip bare cs ++ strip bare tail := by
  have hbreaks : Breaks (reset ++ tail) := by
    intro c hc
    obtain rfl : escapeChar = c := Option.some.inj hc
    rfl
  rw [colored, List.append_assoc, List.append_assoc, strip_sequence (isSequence_opening bare s),
    strip_append _ hbreaks, strip_reopen (isSequence_opening bare s),
    strip_sequence (isSequence_reset bare)]

theorem strip_apply_append (color : Bool) (s : Style) (text : String) (htail : Breaks tail) :
    strip bare ((apply color s text).toList ++ tail) =
      strip bare text.toList ++ strip bare tail := by
  cases color with
  | false => exact strip_append _ htail
  | true => rw [apply, if_pos rfl, String.toList_ofList, strip_colored]

theorem strip_apply (color : Bool) (s : Style) (text : String) :
    strip bare (apply color s text).toList = strip bare text.toList := by
  have hnil : Breaks [] := fun c hc => absurd hc (by simp)
  have happly : strip bare ((apply color s text).toList ++ []) =
      strip bare text.toList ++ strip bare [] :=
    strip_apply_append color s text hnil
  rwa [List.append_nil, strip, List.append_nil] at happly

theorem strip_of_no_escape (h : escapeChar ∉ cs) : strip bare cs = cs := by
  have hplain : strip bare (cs ++ []) = cs ++ strip bare [] := strip_plain h []
  rwa [strip, List.append_nil] at hplain

end Paint

namespace Report

open Paint

variable {bare : Bool}

/-- Lines can be stripped one by one, as no sequence goes on into the next line. -/
theorem strip_ofLines (lines : List String) :
    strip bare (Text.ofLines lines).toList =
      (lines.map fun line => strip bare line.toList).flatMap (· ++ ['\n']) := by
  have hbreaks : ∀ rest, Breaks ('\n' :: rest) := by
    rintro rest c ⟨⟩
    rfl
  rw [Text.toList_ofLines]
  induction lines with
  | nil => rw [List.flatMap_nil, strip, List.map_nil, List.flatMap_nil]
  | cons line lines ih =>
    rw [List.flatMap_cons, List.append_assoc, List.singleton_append, strip_append _ (hbreaks _),
      strip_cons (afterSequence?_of_ne_escape (by decide) _), ih, List.map_cons, List.flatMap_cons,
      List.append_assoc, List.singleton_append]

theorem strip_headline (color : Bool) (d : Diagnostic) :
    strip bare (Paint.apply color .bold d.location.display ++ ": " ++
        Paint.apply color .boldYellow Diagnostic.tag ++ ": " ++ d.summary).toList =
      strip bare d.location.display.toList ++ (": ".toList ++ (strip bare Diagnostic.tag.toList ++
        (": ".toList ++ strip bare d.summary.toList))) := by
  have hbreaks : ∀ rest, Breaks (": ".toList ++ rest) := by
    rintro rest c ⟨⟩
    rfl
  have hplain : escapeChar ∉ ": ".toList := by decide
  simp only [String.toList_append, List.append_assoc]
  rw [strip_apply_append _ _ _ (hbreaks _), strip_plain hplain,
    strip_apply_append _ _ _ (hbreaks _), strip_plain hplain]

theorem strip_indented (color : Bool) (s : Style) (line : String) :
    strip bare ("    " ++ Paint.apply color s line).toList =
      "    ".toList ++ strip bare line.toList := by
  have hplain : escapeChar ∉ "    ".toList := by decide
  rw [String.toList_append, strip_plain hplain, strip_apply]

theorem strip_terminalLines (color : Bool) (d : Diagnostic) :
    ((terminalLines color d).map fun line => strip bare line.toList) =
      (terminalLines false d).map fun line => strip bare line.toList := by
  simp only [terminalLines, List.map_append, List.map_cons, List.map_map, Function.comp_def,
    strip_headline, strip_indented]

/-- A report for a terminal has the same text with colours as without, once the control sequences
are taken out of both. If there are none without colours, taking them out of the coloured report
undoes the colours. -/
theorem colours_strip_away (bare : Bool) (r : Report) :
    strip bare (r.terminal true).toList = strip bare (r.terminal false).toList ∧
    (escapeChar ∉ (r.terminal false).toList →
      strip bare (r.terminal true).toList = (r.terminal false).toList) := by
  have hsame : strip bare (r.terminal true).toList = strip bare (r.terminal false).toList := by
    simp only [terminal, strip_ofLines, List.map_append, List.map_flatMap, List.map_cons,
      List.map_nil, strip_terminalLines true, strip_apply]
  exact ⟨hsame, fun h => hsame.trans (strip_of_no_escape h)⟩

end Report

end MethodRoles
