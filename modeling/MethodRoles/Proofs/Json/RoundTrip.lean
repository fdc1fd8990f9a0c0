import MethodRoles.Json.Reader
import MethodRoles.Proofs.Json.Lexing

/-!
# Printed values are read back

The reader is a machine with a stack of open arrays and objects. The tokens of a value take it from
the state in which a value has to come to the state in which that value has ended, inside whatever
is open. So a printed value is read as the value that it was printed from.
-/
namespace MethodRoles.Json

open Data

/-- The tokens of a value are read as that value, inside all frames and before all tokens. -/
def ReadsBack (v : Value) : Prop :=
  ∀ frames ts, readTokens (.expectValue frames) (tokensOf v ++ ts) = readTokens (.ended v frames) ts

theorem readTokens_cons {state state' : State} {t : Token} (h : state.read t = some state')
    (ts : List Token) : readTokens state (t :: ts) = readTokens state' ts := by
  rw [readTokens, h]

/-- No value begins with a closing bracket, so that the first item is read like any other. -/
theorem readTokens_openedArray (frames : List Frame) (v : Value) (ts : List Token) :
    readTokens (.openedArray frames) (tokensOf v ++ ts) =
      readTokens (.expectValue (.array [] :: frames)) (tokensOf v ++ ts) := by
  cases v with
  | arr items => cases items <;> simp [tokensOf, readTokens, State.read]
  | obj members => cases members <;> simp [tokensOf, readTokens, State.read]
  | null | bool | nat | number | str | void => simp [tokensOf, readTokens, State.read]

theorem readTokens_items {items : List Value} (h : ∀ v ∈ items, ReadsBack v) (v : Value)
    (before : List Value) (frames : List Frame) (ts : List Token) :
    readTokens (.ended v (.array before :: frames)) (itemTokens items ++ .closeBracket :: ts) =
      readTokens (.ended (.arr (before.reverse ++ v :: items)) frames) ts := by
  induction items generalizing v before with
  | nil =>
    have hclose : State.read .closeBracket (.ended v (.array before :: frames)) =
      some (.ended (.arr (v :: before).reverse) frames) := rfl
    rw [itemTokens, List.nil_append, readTokens_cons hclose, List.reverse_cons]
  | cons w items ih =>
    have hcomma : State.read .comma (.ended v (.array before :: frames)) =
      some (.expectValue (.array (v :: before) :: frames)) := rfl
    rw [itemTokens, List.cons_append, readTokens_cons hcomma, List.append_assoc, h w (by simp),
      ih (fun x hx => h x (by simp [hx]))]
    simp

/-- An object is what its members are, if each of them has a key. -/
theorem object_reverse (members : List (String × Value)) :
    object (members.map fun m => (some m.1, m.2)).reverse = .obj members := by
  have hkeys : (members.map fun m => (some m.1, m.2)).mapM
      (fun m : Option String × Value => m.1.map (·, m.2)) = some members := by
    induction members with
    | nil => rfl
    | cons m members ih => simp [ih]
  rw [object, List.reverse_reverse, hkeys]

theorem readTokens_members {members : List (String × Value)} (h : ∀ m ∈ members, ReadsBack m.2)
    (key : String) (v : Value) (before : List (String × Value)) (frames : List Frame)
    (ts : List Token) :
    readTokens
      (.ended v (.member (before.map fun m => (some m.1, m.2)).reverse (some key) :: frames))
        (memberTokens members ++ .closeBrace :: ts) =
      readTokens (.ended (.obj (before ++ (key, v) :: members)) frames) ts := by
  induction members generalizing key v before with
  | nil =>
    have hclose : State.read .closeBrace
          (.ended v (.member (before.map fun m => (some m.1, m.2)).reverse (some key) :: frames)) =
        some (.ended (object ((before ++ [(key, v)]).map fun m => (some m.1, m.2)).reverse)
          frames) := by
      simp [State.read]
    rw [memberTokens, List.nil_append, readTokens_cons hclose, object_reverse]
  | cons m members ih =>
    obtain ⟨next, w⟩ := m
    have hcomma : State.read .comma
          (.ended v (.member (before.map fun m => (some m.1, m.2)).reverse (some key) :: frames)) =
        some (.expectKey ((before ++ [(key, v)]).map fun m => (some m.1, m.2)).reverse frames) := by
      simp [State.read]
    have hkey : ∀ done, State.read (.text (codesOf next)) (.expectKey done frames) =
        some (.expectColon done (some next) frames) := by
      simp [State.read, readKey]
    have hcolon : ∀ done, State.read .colon (.expectColon done (some next) frames) =
        some (.expectValue (.member done (some next) :: frames)) := fun _ => rfl
    simp only [memberTokens, List.cons_append, List.append_assoc]
    rw [readTokens_cons hcomma, readTokens_cons (hkey _), readTokens_cons (hcolon _),
      h (next, w) (by simp), ih (fun x hx => h x (by simp [hx]))]
    simp

theorem readsBack_of_plain {v : Value} (hv : v.Plain) : ReadsBack v := by
  induction hv with
  | null | bool | nat =>
    intro frames ts
    exact readTokens_cons rfl ts
  | str s =>
    intro frames ts
    refine readTokens_cons ?_ ts
    simp [State.read, readValue, textValue]
  | @arr items h ih =>
    intro frames ts
    have hopen : State.read .openBracket (.expectValue frames) = some (.openedArray frames) := rfl
    cases items with
    | nil => rfl
    | cons v items =>
      simp only [tokensOf, List.cons_append, List.append_assoc, List.nil_append]
      rw [readTokens_cons hopen, readTokens_openedArray, ih v (by simp),
        readTokens_items fun w hw => ih w (by simp [hw])]
      rfl
  | @obj members h ih =>
    intro frames ts
    have hopen : State.read .openBrace (.expectValue frames) = some (.openedObject frames) := rfl
    cases members with
    | nil => rfl
    | cons m members =>
      obtain ⟨key, v⟩ := m
      have hkey : State.read (.text (codesOf key)) (.openedObject frames) =
          some (.expectColon [] (some key) frames) := by
        simp [State.read, readKey]
      have hcolon : State.read .colon (.expectColon [] (some key) frames) =
          some (.expectValue (.member [] (some key) :: frames)) := rfl
      simp only [tokensOf, List.cons_append, List.append_assoc, List.nil_append]
      rw [readTokens_cons hopen, readTokens_cons hkey, readTokens_cons hcolon,
        ih (key, v) (by simp)]
      exact readTokens_members (fun w hw => ih w (by simp [hw])) key v [] frames ts

theorem read?_render {layout : Layout} (hl : layout.Proper) {v : Value} (hv : v.Plain)
    (level : Nat) :
    read? (String.ofList (render layout level v)) = some v := by
  have h := readsBack_of_plain hv [] []
  rw [List.append_nil] at h
  rw [read?, String.toList_ofList, tokens?_render hl hv, Option.bind_some, h]
  rfl

theorem read?_pretty {v : Value} (hv : v.Plain) : read? (pretty v) = some v :=
  read?_render Layout.pretty_proper hv 0

end MethodRoles.Json
