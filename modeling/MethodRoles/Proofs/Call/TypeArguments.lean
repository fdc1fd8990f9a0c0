import MethodRoles.Call.Exclusion
import MethodRoles.Proofs.Call.Matching

/-!
# The two notations of type arguments

Type arguments are counted by the commas between them, in a text whose own angle brackets are
closed. So the count comes out whatever is nested in the arguments, and a call is judged in the same
way when its type tells only the number of arguments after a backtick.
-/
namespace MethodRoles

/-! ## Numbers in decimal -/

namespace Text

theorem isBlank_eq_false_of_isDigit {c : Char} (h : c.isDigit = true) : isBlank c = false := by
  have hrange : 48 ≤ c.toNat ∧ c.toNat ≤ 57 := by
    simpa [Char.isDigit, UInt32.le_iff_toNat_le] using h
  simp only [isBlank, Bool.or_eq_false_iff, Bool.and_eq_false_iff, decide_eq_false_iff_not,
    beq_eq_false_iff_ne]
  omega

theorem trim_toDigits (n : Nat) : trim (Nat.toDigits 10 n) = Nat.toDigits 10 n :=
  trim_eq_self fun c hc =>
    isBlank_eq_false_of_isDigit (Nat.isDigit_of_mem_toDigits (by decide) (by decide) hc)

theorem readWord?_toDigits {n : Nat} (h : n < wordLimit) :
    readWord? (Nat.toDigits 10 n) = some n := by
  have hall : (Nat.toDigits 10 n).all Char.isDigit = true :=
    List.all_eq_true.2 fun c => Nat.isDigit_of_mem_toDigits (by decide) (by decide)
  have hn : Nat.ofDigitChars 10 (Nat.toDigits 10 n) 0 = n := Nat.ofDigitChars_ten_toDigits
  rw [readWord?.eq_def]
  cases hd : Nat.toDigits 10 n with
  | nil => exact absurd hd Nat.toDigits_ne_nil
  | cons c cs =>
    rw [hd] at hall hn
    have hplus : c ≠ '+' := by
      rintro rfl
      cases hall
    simp [hplus, hall, hn, h]

end Text

namespace TypeText

/-! ## Texts of types -/

/-- Neither an angle bracket nor a comma nor a backtick. -/
def isPlain (c : Char) : Bool := c ≠ '<' && c ≠ '>' && c ≠ ',' && c ≠ '\x60'

theorem isPlain_iff {c : Char} : isPlain c = true ↔ c ≠ '<' ∧ c ≠ '>' ∧ c ≠ ',' ∧ c ≠ '\x60' := by
  simp [isPlain, and_assoc]

/-- A text that has no backtick and closes its angle brackets; the given number of its commas stand
outside of them. -/
inductive Closed : List Char → Nat → Prop where
  | nil : Closed [] 0
  | plain {c : Char} (h : isPlain c = true) : Closed [c] 0
  | comma : Closed [','] 1
  | append {cs more : List Char} {n m : Nat} (h : Closed cs n) (h' : Closed more m) :
      Closed (cs ++ more) (n + m)
  | brackets {inner : List Char} {n : Nat} (h : Closed inner n) : Closed ('<' :: (inner ++ ['>'])) 0

/-- Texts that may stand between brackets as arguments, and the number of commas that stand outside
of the brackets in them. -/
inductive Arguments : List (List Char) → Nat → Prop where
  | nil : Arguments [] 0
  | cons {cs : List Char} {args : List (List Char)} {n m : Nat} (hne : cs ≠ []) (h : Closed cs n)
      (h' : Arguments args m) : Arguments (cs :: args) (n + m)

section Lists

variable {α : Type} {text : α → List Char}

/-- The texts of types that are put together one after the other. -/
theorem texts_eq_map_of_cons {texts : List α → List (List Char)} (hnil : texts [] = [])
    (hcons : ∀ t rest, texts (t :: rest) = text t :: texts rest) (types : List α) :
    texts types = types.map text := by
  induction types with
  | nil => exact hnil
  | cons t rest ih => rw [hcons, ih, List.map_cons]

/-- Types may stand as arguments if each of them has a text that is closed. -/
theorem Arguments.map {exposed : α → Nat} (total : List α → Nat) (hnil : total [] = 0)
    (hcons : ∀ t rest, total (t :: rest) = exposed t + total rest) {types : List α}
    (h : ∀ t ∈ types, text t ≠ [] ∧ Closed (text t) (exposed t)) :
    Arguments (types.map text) (total types) := by
  induction types with
  | nil =>
    rw [hnil]
    exact .nil
  | cons t rest ih =>
    obtain ⟨ht, hrest⟩ := List.forall_mem_cons.1 h
    rw [hcons]
    exact .cons ht.1 ht.2 (ih hrest)

end Lists

/-- A type with its arguments in angle brackets. -/
def applied (base : List Char) : List (List Char) → List Char
  | [] => base
  | first :: others => base ++ '<' :: ([','].intercalate (first :: others) ++ ['>'])

/-- A type with the number of its arguments after a backtick. -/
def counted (base : List Char) (n : Nat) : List Char := base ++ '\x60' :: Nat.toDigits 10 n

variable {cs base : List Char} {args : List (List Char)} {n m : Nat}

/-! ## Closed texts -/

theorem Closed.cons {c : Char} (h : Closed cs n) (hc : isPlain c = true) :
    Closed (c :: cs) n := by
  have happend := (Closed.plain hc).append h
  rwa [Nat.zero_add] at happend

theorem Closed.concat {c : Char} (h : Closed cs n) (hc : isPlain c = true) :
    Closed (cs ++ [c]) n :=
  h.append (.plain hc)

theorem closed_of_plain (h : cs.all isPlain = true) : Closed cs 0 := by
  induction cs with
  | nil => exact .nil
  | cons c cs ih =>
    rw [List.all_cons, Bool.and_eq_true] at h
    exact (ih h.2).cons h.1

theorem outerCommas_cons_of_plain {c : Char} (h : isPlain c = true) (depth : Nat) (cs : List Char) :
    outerCommas depth (c :: cs) = outerCommas depth cs := by
  obtain ⟨hopen, hclose, hcomma, -⟩ := isPlain_iff.1 h
  rw [outerCommas] <;> assumption

/-- A scan leaves a closed text at the depth at which it has entered it. -/
theorem Closed.outerCommas_append (h : Closed cs n) (depth : Nat) (rest : List Char) :
    outerCommas depth (cs ++ rest) = (if depth = 0 then n else 0) + outerCommas depth rest := by
  induction h generalizing depth rest with
  | nil => simp
  | plain hc => simp [outerCommas_cons_of_plain hc]
  | comma => rfl
  | append _ _ ih ih' =>
    rw [List.append_assoc, ih, ih']
    split <;> omega
  | brackets _ ih =>
    -- inside of the brackets the depth is not zero, and the closing one takes it back
    rw [List.cons_append, List.append_assoc, outerCommas, ih, if_neg (Nat.succ_ne_zero depth)]
    simp [outerCommas]

theorem Closed.outerCommas_eq (h : Closed cs n) : outerCommas 0 cs = n := by
  simpa [outerCommas] using h.outerCommas_append 0 []

theorem Closed.no_backtick (h : Closed cs n) : '\x60' ∉ cs := by
  induction h with
  | nil => simp
  | plain hc => simpa using (isPlain_iff.1 hc).2.2.2.symm
  | comma => decide
  | append _ _ ih ih' => simp [ih, ih']
  | brackets _ ih => simp [ih]

/-- Between the arguments there is one comma less than there are arguments. -/
theorem Arguments.closed_intercalate (h : Arguments args n) (hne : args ≠ []) :
    Closed ([','].intercalate args) (args.length - 1 + n) := by
  induction h with
  | nil => exact absurd rfl hne
  | @cons cs args n m _ hcs hargs ih =>
    cases args with
    | nil =>
      cases hargs
      simpa using hcs
    | cons next others =>
      rw [List.intercalate_cons_cons, List.append_assoc]
      have hclosed := hcs.append (Closed.comma.append (ih (List.cons_ne_nil _ _)))
      have hcount : n + (1 + ((next :: others).length - 1 + m)) =
          (cs :: next :: others).length - 1 + (n + m) := by
        simp only [List.length_cons]
        omega
      rwa [hcount] at hclosed

theorem Arguments.intercalate_ne_nil (h : Arguments args n) (hne : args ≠ []) :
    [','].intercalate args ≠ [] := by
  cases h with
  | nil => exact absurd rfl hne
  | @cons cs args _ _ hcs _ _ =>
    cases args with
    | nil => rwa [List.intercalate_singleton]
    | cons next others => simp [List.intercalate_cons_cons]

/-- The commas between the arguments stand inside of the brackets. -/
theorem Closed.applied (h : Closed base n) (h' : Arguments args m) :
    Closed (applied base args) n := by
  cases args with
  | nil => exact h
  | cons first others => exact h.append (h'.closed_intercalate (List.cons_ne_nil _ _)).brackets

theorem applied_ne_nil (h : base ≠ []) (args : List (List Char)) :
    applied base args ≠ [] := by
  cases args with
  | nil => exact h
  | cons first others => simp [applied]

/-! ## Names and numbers of arguments -/

theorem baseName_append (h : base.all isPlain = true) {rest : List Char}
    (hrest : ∀ c ∈ rest.head?, c = '<' ∨ c = '\x60') :
    baseName (base ++ rest) = Text.trim base := by
  refine baseName_eq_iff.2 ⟨base, rest, rfl, fun c hc => ?_, hrest, Text.trimsTo_trim base⟩
  have hplain := isPlain_iff.1 (List.all_eq_true.1 h c hc)
  exact ⟨hplain.1, hplain.2.2.2⟩

theorem baseName_applied (h : base.all isPlain = true) (args : List (List Char)) :
    baseName (applied base args) = Text.trim base := by
  cases args with
  | nil =>
    rw [applied, ← List.append_nil base, baseName_append h (by simp), List.append_nil]
  | cons first others => exact baseName_append h (by simp)

theorem baseName_counted (h : base.all isPlain = true) (n : Nat) :
    baseName (counted base n) = Text.trim base :=
  baseName_append h (by simp)

theorem bracketed?_brackets (h : base.all isPlain = true) (inner : List Char) :
    bracketed? (base ++ '<' :: (inner ++ ['>'])) = some inner := by
  have hclose : (inner ++ ['>']).reverse.dropWhile (· ≠ '>') = '>' :: inner.reverse := by simp
  rw [bracketed?, Text.dropWhile_ne_append (Text.not_mem_of_all h (by decide))]
  dsimp only
  rw [hclose]
  simp

theorem bracketed?_of_plain (h : base.all isPlain = true) : bracketed? base = none := by
  rw [bracketed?, Text.dropWhile_ne_eq_nil (Text.not_mem_of_all h (by decide))]

theorem arity_of_no_backtick {type : List Char} (h : '\x60' ∉ type) :
    arity type =
      (bracketed? type).elim 0 fun inner => if inner = [] then 0 else 1 + outerCommas 0 inner := by
  rw [arity, Text.dropWhile_ne_eq_nil h]
  cases bracketed? type with
  | none => rfl
  | some inner => cases inner <;> rfl

/-- Commas of the arguments that no bracket hides are taken for commas between arguments. -/
theorem arity_applied (h : base.all isPlain = true) (h' : Arguments args n) :
    arity (applied base args) = args.length + n := by
  rw [arity_of_no_backtick ((closed_of_plain h).applied h').no_backtick]
  cases args with
  | nil =>
    cases h'
    rw [applied, bracketed?_of_plain h]
    rfl
  | cons first others =>
    have hne := List.cons_ne_nil first others
    rw [applied, bracketed?_brackets h, Option.elim_some, if_neg (h'.intercalate_ne_nil hne),
      (h'.closed_intercalate hne).outerCommas_eq, List.length_cons]
    omega

theorem arity_counted (h : base.all isPlain = true) (hn : n < Text.wordLimit) :
    arity (counted base n) = n := by
  rw [arity, counted, Text.dropWhile_ne_append (Text.not_mem_of_all h (by decide))]
  dsimp only
  rw [Text.trim_toDigits, Text.readWord?_toDigits hn]
  rfl

/-! ## Nested arguments -/

/-- A text that is not empty and has characters of one kind only. -/
structure Word (allowed : Char → Bool) where
  chars : List Char
  ne_nil : chars ≠ []
  all_allowed : chars.all allowed = true

end TypeText

open TypeText

/-- A type that is named by a word and may have type arguments. -/
inductive GenericType where
  | of (name : Word isPlain) (args : List GenericType)

namespace GenericType

mutual

def text : GenericType → List Char
  | of name args => applied name.chars (texts args)

def texts : List GenericType → List (List Char)
  | [] => []
  | t :: rest => t.text :: texts rest

end

theorem texts_eq_map (args : List GenericType) : texts args = args.map text :=
  texts_eq_map_of_cons rfl (fun _ _ => rfl) args

theorem text_ne_nil (t : GenericType) : t.text ≠ [] := by
  cases t with
  | of name args => exact applied_ne_nil name.ne_nil _

theorem arguments_texts (args : List GenericType) (h : ∀ t ∈ args, Closed t.text 0) :
    Arguments (texts args) 0 := by
  rw [texts_eq_map]
  exact .map (fun _ => 0) rfl (fun _ _ => rfl) fun t ht => ⟨t.text_ne_nil, h t ht⟩

/-- All commas of a type text stand inside of brackets. -/
theorem closed_text : (t : GenericType) → Closed t.text 0
  | of name args => by
    rw [text]
    exact (closed_of_plain name.all_allowed).applied (arguments_texts args fun t _ => closed_text t)

end GenericType

/-! ## Rulings on calls -/

/-- Of the type of a target only the name and the number of arguments matter. -/
theorem Ruling.on_congr_type {type type' : List Char} (hname : baseName type = baseName type')
    (harity : arity type = arity type') (table : ExclusionTable) (caller : String) (t : Target) :
    on table caller { t with containingType := String.ofList type } =
      on table caller { t with containingType := String.ofList type' } := by
  have haccepts : ∀ r : ExclusionRule, r.accepts { t with containingType := String.ofList type } =
      r.accepts { t with containingType := String.ofList type' } := by
    intro r
    simp only [ExclusionRule.accepts, String.toList_ofList, hname]
  have hfind : table.find? { t with containingType := String.ofList type } =
      table.find? { t with containingType := String.ofList type' } := by
    rw [ExclusionTable.find?, ExclusionTable.find?, funext haccepts]
  have hsimple : Target.isSimpleDelegate { t with containingType := String.ofList type } =
      Target.isSimpleDelegate { t with containingType := String.ofList type' } := by
    simp only [Target.isSimpleDelegate, String.toList_ofList, hname, harity]
  simp only [on, hfind, hsimple]

namespace GenericType

/-- A type with arguments in brackets has as many as are written there, whatever is nested in them.
With their number after a backtick it has the same arity, and a call of a member of it gets the same
ruling. Without arguments the number is zero. -/
theorem notations_agree (name : Word isPlain) (args : List GenericType) :
    arity (applied name.chars (texts args)) = args.length ∧
    (args.length < Text.wordLimit →
      arity (counted name.chars args.length) = args.length ∧
      ∀ (table : ExclusionTable) (caller : String) (t : Target),
        Ruling.on table caller
          { t with containingType := String.ofList (applied name.chars (texts args)) } =
          Ruling.on table caller
            { t with containingType := String.ofList (counted name.chars args.length) }) := by
  have happlied : arity (applied name.chars (texts args)) = args.length := by
    rw [arity_applied name.all_allowed (arguments_texts args fun t _ => t.closed_text),
      texts_eq_map, List.length_map, Nat.add_zero]
  refine ⟨happlied, fun hlimit => ?_⟩
  have hcounted := arity_counted name.all_allowed hlimit
  refine ⟨hcounted, Ruling.on_congr_type ?_ (happlied.trans hcounted.symm)⟩
  rw [baseName_applied name.all_allowed, baseName_counted name.all_allowed]

def dictionary : GenericType :=
  .of ⟨"Dictionary".toList, by decide, by decide⟩
    [.of ⟨"string".toList, by decide, by decide⟩ [], .of ⟨" int".toList, by decide, by decide⟩ []]

def bool : GenericType := .of ⟨" bool".toList, by decide, by decide⟩ []

/-- A function of a dictionary has two arguments in either notation. -/
theorem notations_agree_dictionary :
    applied "Func".toList (texts [dictionary, bool]) =
      "Func<Dictionary<string, int>, bool>".toList ∧
    counted "Func".toList [dictionary, bool].length = "Func\x602".toList ∧
    arity "Func<Dictionary<string, int>, bool>".toList = 2 ∧ arity "Func\x602".toList = 2 ∧
    Ruling.on .defaults "Run"
        { Target.external "System" (String.ofList "Func<Dictionary<string, int>, bool>".toList)
          "Invoke" with
          isDelegateInvoke := true } =
      Ruling.on .defaults "Run"
        { Target.external "System" (String.ofList "Func\x602".toList) "Invoke" with
          isDelegateInvoke := true } := by
  have happlied :
      applied "Func".toList (texts [dictionary, bool]) =
        "Func<Dictionary<string, int>, bool>".toList := by decide
  have hcounted : counted "Func".toList [dictionary, bool].length = "Func\x602".toList := by decide
  obtain ⟨harity, hagree⟩ :=
    notations_agree ⟨"Func".toList, by decide, by decide⟩ [dictionary, bool]
  obtain ⟨harity', hruling⟩ := hagree (by decide)
  dsimp only at harity harity' hruling
  rw [happlied] at harity hruling
  rw [hcounted] at harity' hruling
  exact ⟨happlied, hcounted, harity, harity',
    hruling .defaults "Run" { Target.external "System" "" "Invoke" with isDelegateInvoke := true }⟩

end GenericType

end MethodRoles
