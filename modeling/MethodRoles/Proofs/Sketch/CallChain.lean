import MethodRoles.Proofs.Call.Delegates
import MethodRoles.Sketch.Basic

/-!
# The method that a chain of calls calls last

A chain is cut three times to find the name of its last call: at the parenthesis that opens the last
argument list, at the first angle bracket and at the last point. The first cut is right whatever the
arguments are. The second one is meant for the type arguments of the last call, but it is made in
the receivers too. So the name comes out right if no receiver has an angle bracket, and otherwise it
is cut out of the first receiver that has one.
-/
namespace MethodRoles

open TypeText

/-! ## Chains -/

/-- Whether a text closes its own brackets and `depth` brackets from before. -/
def closesAll (opening closing : Char) (depth : Nat) : List Char → Bool
  | [] => depth == 0
  | c :: cs =>
    if c = opening then closesAll opening closing (depth + 1) cs
    else if c = closing then depth != 0 && closesAll opening closing (depth - 1) cs
    else closesAll opening closing depth cs

/-- A text between brackets that closes its own. -/
structure Bracketed (opening closing : Char) where
  inner : List Char := []
  closes : closesAll opening closing 0 inner = true := by decide

def Bracketed.text {opening closing : Char} (b : Bracketed opening closing) : List Char :=
  opening :: (b.inner ++ [closing])

/-- A name, with or without type arguments and arguments. -/
structure CallLink where
  name : Word isNameChar
  typeArguments : Option (Bracketed '<' '>') := none
  arguments : Option (Bracketed '(' ')') := none

def CallLink.text (l : CallLink) : List Char :=
  l.name.chars ++ l.typeArguments.elim [] Bracketed.text ++ l.arguments.elim [] Bracketed.text

def Gap.none : Gap := ⟨[], List.all_nil⟩

/-- A call on what is named and called before it, each followed by a point. -/
structure CallChain where
  before : Gap := .none
  receivers : List CallLink := []
  name : Word isNameChar
  typeArguments : Option (Bracketed '<' '>') := none
  arguments : Bracketed '(' ')' := {}
  after : Gap := .none

namespace CallChain

/-- The receivers, and what is called on them without its arguments. -/
def callee (name : Word isNameChar) (typeArguments : Option (Bracketed '<' '>')) :
    List CallLink → List Char
  | [] => name.chars ++ typeArguments.elim [] Bracketed.text
  | l :: rest => l.text ++ '.' :: callee name typeArguments rest

def text (c : CallChain) : List Char :=
  c.before.chars ++ callee c.name c.typeArguments c.receivers ++ c.arguments.text ++ c.after.chars

/-- The last of the segments of a text between points, without blanks around it. -/
def lastName (cs : List Char) : List Char :=
  Text.trim ((Text.segments '.' cs).getLast (Text.segments_ne_nil '.' cs))

/-- The name that is found: the last one before the first angle bracket of the receivers, or that of
the call if they have none. -/
def foundAfter (name : Word isNameChar) : List CallLink → List Char
  | [] => name.chars
  | l :: rest =>
    if '<' ∈ l.text then lastName (l.text.takeWhile (· ≠ '<')) else foundAfter name rest

def found (c : CallChain) : List Char := foundAfter c.name c.receivers

end CallChain

/-! ## The last argument list -/

namespace Callee

/-- Read from its end, a text that closes `more` brackets from before leaves that many to be
opened. -/
theorem beforeOpening?_reverse_append {cs : List Char} {more : Nat}
    (h : closesAll '(' ')' more cs = true) {depth : Nat} (hdepth : 1 ≤ depth) (rest : List Char) :
    beforeOpening? depth (cs.reverse ++ rest) = beforeOpening? (depth + more) rest := by
  induction cs generalizing more rest with
  | nil =>
    obtain rfl : more = 0 := by simpa [closesAll] using h
    rfl
  | cons c cs ih =>
    rw [closesAll] at h
    rw [List.reverse_cons, List.append_assoc, List.singleton_append]
    split at h
    · next hc =>
      subst hc
      -- `cs` closes this bracket too, so it is not the last one to be opened
      rw [ih h, beforeOpening?, if_neg (by omega)]
      rfl
    · next hopen =>
      split at h
      · next hc =>
        subst hc
        rw [Bool.and_eq_true, bne_iff_ne] at h
        rw [ih h.2, beforeOpening?]
        congr 1
        omega
      · next hclose =>
        rw [ih h, beforeOpening?]
        · exact hclose
        · exact hopen

theorem dropArguments_append (front : List Char) (args : Bracketed '(' ')') (after : Gap) :
    dropArguments (front ++ args.text ++ after.chars) = front := by
  have hend : (Text.trimEnd (front ++ args.text ++ after.chars)).reverse =
      ')' :: (args.inner.reverse ++ '(' :: front.reverse) := by
    rw [Text.trimEnd, List.reverse_reverse]
    refine Text.dropWhile_eq_iff.2
      ⟨after.chars.reverse, by simp [Bracketed.text], fun c hc => ?_, ?_⟩
    · exact List.all_eq_true.1 after.all_blank c (List.mem_reverse.1 hc)
    · rintro c ⟨⟩
      rfl
  rw [dropArguments, hend]
  have hopening : beforeOpening? 1 (args.inner.reverse ++ '(' :: front.reverse) =
      some front.reverse := by
    rw [beforeOpening?_reverse_append args.closes (Nat.le_refl 1)]
    rfl
  simp only [hopening, List.reverse_reverse]

end Callee

/-! ## The first angle bracket and the last point -/

theorem isBlank_eq_false_of_isNameChar {c : Char} (h : isNameChar c = true) :
    Text.isBlank c = false := by
  simp only [isNameChar, Bool.and_eq_true, Bool.not_eq_true'] at h
  exact h.1.2

namespace CallChain

variable {cs : List Char}

theorem name_eq_lastName (cs : List Char) :
    Callee.name cs = lastName ((Callee.dropArguments cs).takeWhile (· ≠ '<')) := by
  rw [lastName, Text.getLast_segments]
  rfl

theorem lastName_append_point (front rest : List Char) :
    lastName (front ++ '.' :: rest) = lastName rest := by
  have hrest := Text.segments_ne_nil '.' rest
  simp only [lastName, Text.segments_append_sep, List.getLast_append_of_ne_nil _ hrest]

theorem lastName_of_no_point (h : '.' ∉ cs) : lastName cs = Text.trim cs := by
  simp only [lastName, Text.segments_of_not_mem h, List.getLast_singleton]

theorem lastName_word (name : Word isNameChar) : lastName name.chars = name.chars := by
  rw [lastName_of_no_point (Text.not_mem_of_all name.all_allowed (by decide)), Text.trim_eq_self]
  intro c hc
  exact isBlank_eq_false_of_isNameChar (List.all_eq_true.1 name.all_allowed c hc)

theorem lastName_gap_append (gap : Gap) (cs : List Char) :
    lastName (gap.chars ++ cs) = lastName cs := by
  by_cases hpoint : '.' ∈ cs
  · obtain ⟨front, rest, rfl⟩ := List.append_of_mem hpoint
    rw [← List.append_assoc, lastName_append_point, lastName_append_point]
  · have hgap : '.' ∉ gap.chars := Text.not_mem_of_all gap.all_blank (by decide)
    rw [lastName_of_no_point (by simp [hgap, hpoint]), lastName_of_no_point hpoint,
      Text.trim_append_of_blank (List.all_eq_true.1 gap.all_blank)]

theorem takeWhile_name_append (name : Word isNameChar) {rest : List Char}
    (h : ∀ c ∈ rest.head?, c = '<') :
    (name.chars ++ rest).takeWhile (· ≠ '<') = name.chars := by
  have hname : '<' ∉ name.chars := Text.not_mem_of_all name.all_allowed (by decide)
  refine Text.takeWhile_eq_iff.2 ⟨rest, rfl, fun c hc => ?_, fun c hc => ?_⟩
  · exact decide_eq_true (ne_of_mem_of_not_mem hc hname)
  · simp [h c hc]

theorem head?_typeArguments (typeArguments : Option (Bracketed '<' '>')) :
    ∀ c ∈ (typeArguments.elim [] Bracketed.text).head?, c = '<' := by
  cases typeArguments with
  | none => simp
  | some args => simp [Bracketed.text]

/-- An angle bracket of a receiver hides all that comes after it. Receivers without one end at a
point, and nothing before that point is looked at. -/
theorem lastName_callee (name : Word isNameChar) (typeArguments : Option (Bracketed '<' '>'))
    (receivers : List CallLink) :
    lastName ((callee name typeArguments receivers).takeWhile (· ≠ '<')) =
      foundAfter name receivers := by
  induction receivers with
  | nil =>
    rw [callee, foundAfter, takeWhile_name_append name (head?_typeArguments typeArguments),
      lastName_word]
  | cons l rest ih =>
    rw [callee, foundAfter]
    split
    · next h => rw [Text.takeWhile_ne_append_of_mem h]
    · next h =>
      rw [Text.takeWhile_ne_append h, List.takeWhile_cons_of_pos (by decide), lastName_append_point,
        ih]

theorem name_text (c : CallChain) : Callee.name c.text = c.found := by
  have hgap : '<' ∉ c.before.chars := Text.not_mem_of_all c.before.all_blank (by decide)
  rw [name_eq_lastName, text, Callee.dropArguments_append, Text.takeWhile_ne_append hgap,
    lastName_gap_append, lastName_callee, found]

/-- A receiver with type arguments is taken for the method. -/
theorem foundAfter_typeArguments (name : Word isNameChar) {l : CallLink}
    (h : l.typeArguments.isSome = true)
    (rest : List CallLink) : foundAfter name (l :: rest) = l.name.chars := by
  obtain ⟨args, hargs⟩ := Option.isSome_iff_exists.1 h
  have htext : l.text = l.name.chars ++ (args.text ++ l.arguments.elim [] Bracketed.text) := by
    rw [CallLink.text, hargs, List.append_assoc]
    rfl
  have hcut : l.text.takeWhile (· ≠ '<') = l.name.chars := by
    rw [htext, takeWhile_name_append l.name (by simp [Bracketed.text])]
  have hmem : '<' ∈ l.text := by simp [htext, Bracketed.text]
  rw [foundAfter, if_pos hmem, hcut, lastName_word]

theorem foundAfter_append (name : Word isNameChar) {plain : List CallLink}
    (h : ∀ l ∈ plain, '<' ∉ l.text)
    (rest : List CallLink) : foundAfter name (plain ++ rest) = foundAfter name rest := by
  induction plain with
  | nil => rfl
  | cons l plain ih =>
    rw [List.cons_append, foundAfter, if_neg (h l (by simp)), ih fun l' hl' => h l' (by simp [hl'])]

/-- The name that is found is that of the last call if no receiver has an angle bracket, whatever
its own type arguments and arguments are. If the first receiver with an angle bracket has type
arguments, it is the name of that receiver, and otherwise what it has before the bracket, from the
last point on. Targets of sketches are named after it. -/
theorem callee_of_chain (c : CallChain) :
    Callee.name c.text = c.found ∧
    (∀ s : Sketch, s.text = String.ofList c.text →
      s.user.target = some (.user (String.ofList c.found)) ∧
      ∀ space type, (s.external space type).target =
        some (.external space type (String.ofList c.found))) ∧
    ((∀ l ∈ c.receivers, '<' ∉ l.text) → c.found = c.name.chars) ∧
    ∀ plain l rest, c.receivers = plain ++ l :: rest → (∀ l' ∈ plain, '<' ∉ l'.text) →
      l.typeArguments.isSome = true → c.found = l.name.chars := by
  refine ⟨c.name_text, fun s hs => ?_, fun h => ?_, fun plain l rest hreceivers hplain hl => ?_⟩
  · have hname : s.calleeName = String.ofList c.found := by
      rw [Sketch.calleeName, hs, String.toList_ofList, name_text]
    simp [Sketch.user, Sketch.external, Sketch.resolvesTo, hname]
  · have hall := foundAfter_append c.name h []
    rwa [List.append_nil] at hall
  · rw [found, hreceivers, foundAfter_append c.name hplain, foundAfter_typeArguments c.name hl]

/-! ## Two calls -/

def saving : CallChain where
  before := ⟨['\t'], rfl⟩
  receivers :=
    [{ name := ⟨"this".toList, by decide, by decide⟩ },
      { name := ⟨"Load".toList, by decide, by decide⟩,
        arguments := some ⟨"a.b(c), (d)".toList, by decide⟩ }]
  name := ⟨"Save".toList, by decide, by decide⟩
  typeArguments := some ⟨"Map<string, System.Int32>".toList, by decide⟩
  arguments := ⟨"x < f(y.z)".toList, by decide⟩
  after := ⟨['\n'], rfl⟩

/-- Points, parentheses and angle brackets after the name of the last call do no harm. -/
theorem callee_of_chain_saving :
    String.ofList saving.text =
      "\tthis.Load(a.b(c), (d)).Save<Map<string, System.Int32>>(x < f(y.z))\n" ∧
    (∀ l ∈ saving.receivers, '<' ∉ l.text) ∧
    Callee.name saving.text = "Save".toList ∧
    (Sketch.call (String.ofList saving.text)).user.target = some (.user "Save") := by
  have hreceivers : ∀ l ∈ saving.receivers, '<' ∉ l.text := by decide
  obtain ⟨hname, hsketch, hplain, -⟩ := callee_of_chain saving
  have hfound : saving.found = "Save".toList := hplain hreceivers
  rw [hfound] at hname hsketch
  exact ⟨by decide, hreceivers, hname, (hsketch _ rfl).1⟩

def loading : CallChain where
  receivers :=
    [{ name := ⟨"Cache".toList, by decide, by decide⟩,
       typeArguments := some ⟨"int".toList, by decide⟩ }]
  name := ⟨"Load".toList, by decide, by decide⟩
  arguments := ⟨"key".toList, by decide⟩

/-- The type that a method is called on is taken for the method. -/
theorem generic_receiver_is_named :
    String.ofList loading.text = "Cache<int>.Load(key)" ∧ loading.name.chars = "Load".toList ∧
    Callee.name loading.text = "Cache".toList ∧
    (Sketch.call (String.ofList loading.text)).user.target = some (.user "Cache") := by
  decide

end CallChain

end MethodRoles
