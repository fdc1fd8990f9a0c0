import MethodRoles.Proofs.Call.TypeArguments

/-!
# Type arguments of delegates

A type argument may be any type that code can name. Commas of an array of several dimensions or of a
tuple are not hidden by angle brackets and are counted like those between arguments. So a call of a
delegate integrates exactly if the arguments and such commas together are few enough. A delegate
with too many arguments never integrates, but one with a tuple for its only argument may fail to.
-/
namespace MethodRoles

open TypeText

/-! ## Types as they are written -/

/-- Neither a blank nor a character that types are put together with. -/
def isNameChar (c : Char) : Bool :=
  isPlain c && !Text.isBlank c && !List.contains ['(', ')', '[', ']', '.', '?'] c

/-- Any number of blanks. -/
structure Gap where
  chars : List Char := []
  all_blank : chars.all Text.isBlank = true := by rfl

/-- A type as it is written in code. Which types may be made nullable or have members is left open,
and so is where an element has a label. -/
inductive WrittenType where
  | named (name : Word isNameChar) (args : List WrittenType)
  | member (outer : WrittenType) (name : Word isNameChar) (args : List WrittenType)
  | nullable (type : WrittenType)
  /-- An array with one dimension more than there are commas. -/
  | array (element : WrittenType) (commas : Nat)
  | tuple (first second : WrittenType) (others : List WrittenType)
  | labelled (type : WrittenType) (label : Word isNameChar)
  | padded (before : Gap) (type : WrittenType) (after : Gap)

namespace WrittenType

mutual

def text : WrittenType → List Char
  | named name args => applied name.chars (texts args)
  | member outer name args => applied (outer.text ++ '.' :: name.chars) (texts args)
  | nullable type => type.text ++ ['?']
  | array element commas => element.text ++ '[' :: (List.replicate commas ',' ++ [']'])
  | tuple first second others =>
    '(' :: ([','].intercalate (first.text :: second.text :: texts others) ++ [')'])
  | labelled type label => type.text ++ ' ' :: label.chars
  | padded before type after => before.chars ++ type.text ++ after.chars

def texts : List WrittenType → List (List Char)
  | [] => []
  | t :: rest => t.text :: texts rest

end

mutual

/-- The number of commas of arrays and tuples that stand outside of angle brackets. -/
def exposed : WrittenType → Nat
  | named _ _ => 0
  | member outer _ _ => outer.exposed
  | nullable type => type.exposed
  | array element commas => element.exposed + commas
  | tuple first second others =>
    others.length + 1 + (first.exposed + (second.exposed + exposedAll others))
  | labelled type _ => type.exposed
  | padded _ type _ => type.exposed

def exposedAll : List WrittenType → Nat
  | [] => 0
  | t :: rest => t.exposed + exposedAll rest

end

theorem texts_eq_map (args : List WrittenType) : texts args = args.map text :=
  texts_eq_map_of_cons rfl (fun _ _ => rfl) args

theorem isPlain_of_isNameChar {c : Char} (h : isNameChar c = true) : isPlain c = true := by
  simp only [isNameChar, Bool.and_eq_true] at h
  exact h.1.1

theorem closed_name (name : Word isNameChar) : Closed name.chars 0 :=
  closed_of_plain (List.all_eq_true.2 fun c hc =>
    isPlain_of_isNameChar (List.all_eq_true.1 name.all_allowed c hc))

theorem closed_gap (gap : Gap) : Closed gap.chars 0 := by
  refine closed_of_plain (List.all_eq_true.2 fun c hc => isPlain_iff.2 ?_)
  have hblank := List.all_eq_true.1 gap.all_blank c hc
  refine ⟨?_, ?_, ?_, ?_⟩
  all_goals
    rintro rfl
    exact absurd hblank (by decide)

theorem closed_replicate (n : Nat) : Closed (List.replicate n ',') n := by
  induction n with
  | zero => exact .nil
  | succ n ih =>
    rw [List.replicate_succ, Nat.add_comm]
    exact Closed.comma.append ih

theorem text_ne_nil : (t : WrittenType) → t.text ≠ []
  | named name args => by
    rw [text]
    exact applied_ne_nil name.ne_nil _
  | member outer name args => by
    rw [text]
    exact applied_ne_nil (by simp) _
  | nullable type => by simp [text]
  | array element commas => by simp [text]
  | tuple first second others => by simp [text]
  | labelled type label => by simp [text]
  | padded before type after => by simp [text, text_ne_nil type]

theorem arguments_texts (args : List WrittenType) (h : ∀ t ∈ args, Closed t.text t.exposed) :
    Arguments (texts args) (exposedAll args) := by
  rw [texts_eq_map]
  exact .map exposedAll rfl (fun _ _ => rfl) fun t ht => ⟨t.text_ne_nil, h t ht⟩

theorem closed_text : (t : WrittenType) → Closed t.text t.exposed
  | named name args => by
    rw [text, exposed]
    exact (closed_name name).applied (arguments_texts args fun t _ => closed_text t)
  | member outer name args => by
    rw [text, exposed]
    have hname := (closed_name name).cons (c := '.') (by decide)
    exact ((closed_text outer).append hname).applied (arguments_texts args fun t _ => closed_text t)
  | nullable type => by
    rw [text, exposed]
    exact (closed_text type).concat (by decide)
  | array element commas => by
    rw [text, exposed]
    have hrank := (closed_replicate commas).concat (c := ']') (by decide)
    exact (closed_text element).append (hrank.cons (by decide))
  | tuple first second others => by
    rw [text, exposed]
    have hargs := Arguments.cons first.text_ne_nil (closed_text first)
      (.cons second.text_ne_nil (closed_text second)
        (arguments_texts others fun t _ => closed_text t))
    -- parentheses are no brackets to the scan, so that all commas between the elements count
    have hinner := hargs.closed_intercalate (List.cons_ne_nil _ _)
    simp only [List.length_cons, texts_eq_map, List.length_map, Nat.add_sub_cancel] at hinner
    rw [texts_eq_map]
    exact (hinner.concat (by decide)).cons (by decide)
  | labelled type label => by
    rw [text, exposed]
    exact (closed_text type).append ((closed_name label).cons (by decide))
  | padded before type after => by
    rw [text, exposed]
    have hpadded := ((closed_gap before).append (closed_text type)).append (closed_gap after)
    rwa [Nat.zero_add] at hpadded

end WrittenType

/-! ## Calls of delegates -/

namespace Target

/-- What a call of a delegate of `System` resolves to. -/
def systemDelegate (base : String) (args : List WrittenType) (name : String) (isVirtual : Bool) :
    Target :=
  { external "System" (String.ofList (applied base.toList (WrittenType.texts args))) name with
    isVirtual, isDelegateInvoke := true }

theorem isSimpleDelegate_iff {base : String} (h : base.toList.all isPlain = true)
    (args : List WrittenType) (name : String) (isVirtual : Bool) :
    (systemDelegate base args name isVirtual).isSimpleDelegate = true ↔
      Text.trim base.toList = "Action".toList ∧ args.length + WrittenType.exposedAll args ≤ 1 ∨
      Text.trim base.toList = "Func".toList ∧ 1 ≤ args.length + WrittenType.exposedAll args ∧
        args.length + WrittenType.exposedAll args ≤ 2 := by
  have hname := baseName_applied h (WrittenType.texts args)
  have harity := arity_applied h (WrittenType.arguments_texts args fun t _ => t.closed_text)
  rw [WrittenType.texts_eq_map, List.length_map, ← WrittenType.texts_eq_map] at harity
  simp [isSimpleDelegate, systemDelegate, external, hname, harity, and_assoc]

end Target

/-- A call of an external delegate integrates only if the delegate is a simple one, and then under
any exclusions. -/
theorem Ruling.on_eq_integration_iff {t : Target} (huser : t.isUserCode = false)
    (hinvoke : t.isDelegateInvoke = true) (table : ExclusionTable) (caller n : String) :
    on table caller t = .integration n ↔ n = t.name ∧ t.isSimpleDelegate = true := by
  rw [on.eq_def]
  simp only [huser, hinvoke, Bool.false_eq_true, if_false, Bool.true_and]
  cases hsimple : t.isSimpleDelegate with
  | true => simp [eq_comm]
  | false =>
    simp only [Bool.false_eq_true, if_false, and_false, iff_false]
    cases table.find? t with
    | some rule => simp
    | none =>
      dsimp only
      split <;> simp

/-- A call of an action or a function integrates exactly if its type arguments, together with the
commas of arrays and tuples that no angle bracket hides, are at most one or two. So with more
arguments than that it never integrates. -/
theorem Ruling.on_systemDelegate (table : ExclusionTable) (caller name : String) (isVirtual : Bool)
    (args : List WrittenType) :
    (∀ n, on table caller (.systemDelegate "Action" args name isVirtual) = .integration n ↔
      n = name ∧ args.length + WrittenType.exposedAll args ≤ 1) ∧
    (∀ n, on table caller (.systemDelegate "Func" args name isVirtual) = .integration n ↔
      n = name ∧ 1 ≤ args.length ∧ args.length + WrittenType.exposedAll args ≤ 2) ∧
    (2 ≤ args.length →
      ∀ n, on table caller (.systemDelegate "Action" args name isVirtual) ≠ .integration n) ∧
    (3 ≤ args.length →
      ∀ n, on table caller (.systemDelegate "Func" args name isVirtual) ≠ .integration n) := by
  have haction : ∀ n, on table caller (.systemDelegate "Action" args name isVirtual) =
      .integration n ↔
      n = name ∧ args.length + WrittenType.exposedAll args ≤ 1 := by
    intro n
    have hname : Text.trim "Action".toList = "Action".toList := by decide
    have hother : "Action".toList ≠ "Func".toList := by decide
    rw [on_eq_integration_iff rfl rfl, Target.isSimpleDelegate_iff (by decide), hname]
    simp only [true_and, hother, false_and, or_false]
    rfl
  have hfunc : ∀ n, on table caller (.systemDelegate "Func" args name isVirtual) = .integration n ↔
      n = name ∧ 1 ≤ args.length ∧ args.length + WrittenType.exposedAll args ≤ 2 := by
    intro n
    have hname : Text.trim "Func".toList = "Func".toList := by decide
    have hother : "Func".toList ≠ "Action".toList := by decide
    have hsome : 1 ≤ args.length + WrittenType.exposedAll args ↔ 1 ≤ args.length := by
      cases args with
      | nil => simp [WrittenType.exposedAll]
      | cons t rest => simp only [List.length_cons]; omega
    rw [on_eq_integration_iff rfl rfl, Target.isSimpleDelegate_iff (by decide), hname]
    simp only [true_and, hother, false_and, false_or, hsome]
    rfl
  refine ⟨haction, hfunc, fun hmany n hn => ?_, fun hmany n hn => ?_⟩
  · have := ((haction n).1 hn).2
    omega
  · have := ((hfunc n).1 hn).2.2
    omega

/-! ## Two functions of pairs -/

namespace WrittenType

def int : WrittenType := .named ⟨"int".toList, by decide, by decide⟩ []

def bool : WrittenType := .named ⟨"bool".toList, by decide, by decide⟩ []

/-- A type after a comma and a space. -/
def next (type : WrittenType) : WrittenType := .padded ⟨[' '], rfl⟩ type {}

def pair : WrittenType := .tuple int (next int) []

def listOfPairs : WrittenType := .named ⟨"List".toList, by decide, by decide⟩ [pair]

/-- The comma of the pair is hidden by the brackets of the list. -/
theorem function_of_list_integrates :
    String.ofList (applied "Func".toList (texts [listOfPairs, next bool])) =
      "Func<List<(int, int)>, bool>" ∧
    Ruling.on .defaults "Run" (.systemDelegate "Func" [listOfPairs, next bool] "Invoke" false) =
      .integration "Invoke" := by
  obtain ⟨-, hfunc, -, -⟩ :=
    Ruling.on_systemDelegate .defaults "Run" "Invoke" false [listOfPairs, next bool]
  exact ⟨by decide, (hfunc "Invoke").2 ⟨rfl, by decide, by decide⟩⟩

/-- A function of a pair has two type arguments, but three are counted. -/
theorem function_of_pair_operates :
    String.ofList (applied "Func".toList (texts [pair, next bool])) = "Func<(int, int), bool>" ∧
    Ruling.on .defaults "Run" (.systemDelegate "Func" [pair, next bool] "Invoke" false) =
      .operation "Invoke" := by
  decide

end WrittenType

end MethodRoles
