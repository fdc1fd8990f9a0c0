import MethodRoles.Proofs.Model.Loading
import MethodRoles.Proofs.Role.Judgement
import MethodRoles.Proofs.Tree.Search

/-!
# Which methods are reported

A method is reported exactly if its body mixes the roles, and this is said of the file model alone:
of what lies below the body in the child lists, and of the last call that is given for a node.
Neither the order of the search nor the nodes that it passes over play a part.
-/
namespace MethodRoles

namespace FileModel

/-- An invocation of `t` lies below the body. -/
def CallsBelow (m : FileModel) (body : Nat) (t : Target) : Prop :=
  ∃ x, Relation.TransGen m.Lists body x ∧ m.kindAt? x = some .invocation ∧ m.targetAt? x = some t

def Integrates (m : FileModel) (table : ExclusionTable) (caller : String) (body : Nat) : Prop :=
  ∃ t name, m.CallsBelow body t ∧ Ruling.on table caller t = .integration name

def Operates (m : FileModel) (table : ExclusionTable) (caller : String) (body : Nat) : Prop :=
  ∃ t name, m.CallsBelow body t ∧ Ruling.on table caller t = .operation name

/-- A binary expression lies below the body whose parent is no `for` loop. -/
def Computes (m : FileModel) (body : Nat) : Prop :=
  ∃ x, Relation.TransGen m.Lists body x ∧ m.kindAt? x = some .binaryExpression ∧
    ∀ p, m.Lists p x → m.kindAt? p ≠ some .forLoop

def MixesRoles (m : FileModel) (table : ExclusionTable) (caller : String) (body : Nat) : Prop :=
  m.Integrates table caller body ∧ (m.Operates table caller body ∨ m.Computes body)

end FileModel

namespace SourceFile

variable {m : FileModel} {f : SourceFile}

theorem Represents.lists (h : f.Represents m) : f.tree.Lists = m.Lists := by
  funext p c
  rw [Tree.Lists, h.children, FileModel.Lists]

theorem mem_calls (h : f.Represents m) (hl : f.tree.Linked) {body x : Nat} :
    x ∈ f.calls body ↔ Relation.TransGen m.Lists body x ∧ m.kindAt? x = some .invocation := by
  rw [calls, hl.mem_find_everywhere, h.lists, h.hasKind]

theorem mem_rulings (h : f.Represents m) (hl : f.tree.Linked) {table : ExclusionTable}
    {caller : String} {body : Nat} {r : Ruling} :
    r ∈ f.rulings table caller (f.calls body) ↔
      ∃ t, m.CallsBelow body t ∧ Ruling.on table caller t = r := by
  simp only [rulings, List.mem_filterMap, mem_calls h hl, h.target, Option.map_eq_some_iff]
  constructor
  · rintro ⟨x, ⟨hx, hk⟩, t, ht, hr⟩
    exact ⟨t, ⟨x, hx, hk, ht⟩, hr⟩
  · rintro ⟨t, ⟨x, hx, hk, ht⟩, hr⟩
    exact ⟨x, ⟨hx, hk⟩, t, ht, hr⟩

theorem isComputed_iff (h : f.Represents m) {x : Nat} :
    f.tree.isComputed x = true ↔
      m.kindAt? x = some .binaryExpression ∧ ∀ p, m.Lists p x → m.kindAt? p ≠ some .forLoop := by
  rw [Tree.isComputed, Bool.and_eq_true, h.hasKind]
  refine and_congr_right fun _ => ?_
  cases hp : f.tree.parent? x with
  | none =>
    have hn : ∀ p, ¬ m.Lists p x := by
      intro p hl
      rw [(h.parent p x).2 hl] at hp
      cases hp
    simp [hn]
  | some q =>
    have hq : ∀ p, m.Lists p x ↔ p = q := by
      intro p
      rw [← h.parent, hp, Option.some.injEq, eq_comm]
    have hk := h.hasKind .forLoop q
    simp only [Option.any_some, hq, forall_eq, ne_eq, ← hk]
    simp

/-- The search for expressions finds one exactly if there is one. -/
theorem expressions_eq_nil_iff (h : f.Represents m) (hl : f.tree.Linked) {body : Nat} :
    f.expressions body = [] ↔ ¬ m.Computes body := by
  rw [expressions, List.map_eq_nil_iff, Tree.find_shallowest, Tree.outermost_eq_nil_iff]
  simp only [hl.mem_descendants, h.lists, FileModel.Computes, not_exists]
  refine forall_congr' fun x => ?_
  rw [← isComputed_iff h]
  cases f.tree.isComputed x <;> simp

theorem bodyOf_eq (h : f.Represents m) (method : Method) :
    f.bodyOf method =
      if method.kind = .initializer then .error .notAMethod
      else match method.body with
        | none => .error .noBody
        | some body =>
          if m.kindAt? body = some .block then
            if m.childrenAt body = [] then .error .emptyBody else .ok body
          else .error .noBody := by
  unfold bodyOf MemberKind.isMethodLike
  by_cases hk : method.kind = .initializer
  · simp [hk]
  cases method.body with
  | none => simp [hk]
  | some body =>
    have hkind := h.hasKind .block body
    by_cases hblock : m.kindAt? body = some .block
    · simp [hk, hblock, hkind.2 hblock, h.children]
    · simp [hk, hblock, hkind]

/-- Rulings of one sort are among those on a body exactly if a call below it is ruled on so. -/
theorem filterMap_rulings_eq_nil_iff (h : f.Represents m) (hl : f.tree.Linked)
    {table : ExclusionTable}
    {caller : String} {body : Nat} {name? : Ruling → Option String} {ruling : String → Ruling}
    (hname : ∀ r name, name? r = some name ↔ r = ruling name) :
    (f.rulings table caller (f.calls body)).filterMap name? = [] ↔
      ¬ ∃ t name, m.CallsBelow body t ∧ Ruling.on table caller t = ruling name := by
  simp only [List.filterMap_eq_nil_iff, mem_rulings h hl]
  constructor
  · rintro hall ⟨t, name, ht, hr⟩
    have hn := hall _ ⟨t, ht, rfl⟩
    rw [(hname _ name).2 hr] at hn
    cases hn
  · rintro hnone r ⟨t, ht, hr⟩
    cases hn : name? r with
    | none => rfl
    | some name => exact absurd ⟨t, name, ht, hr.trans ((hname r name).1 hn)⟩ hnone

theorem isViolation_iff (h : f.Represents m) (hl : f.tree.Linked) (table : ExclusionTable)
    (caller : String) (body : Nat) :
    (f.fullEvidence table caller body).isViolation = true ↔ m.MixesRoles table caller body := by
  have hint : (f.rulings table caller (f.calls body)).filterMap Ruling.integrated? = [] ↔
      ¬ m.Integrates table caller body := by
    refine filterMap_rulings_eq_nil_iff h hl fun r name => ?_
    cases r <;> simp [Ruling.integrated?]
  have hop : (f.rulings table caller (f.calls body)).filterMap Ruling.operated? = [] ↔
      ¬ m.Operates table caller body := by
    refine filterMap_rulings_eq_nil_iff h hl fun r name => ?_
    cases r <;> simp [Ruling.operated?]
  have hexp : f.expressions body = [] ↔ ¬ m.Computes body := expressions_eq_nil_iff h hl
  simp only [fullEvidence, Evidence.isViolation_ofList, FileModel.MixesRoles, ne_eq, hint, hop,
    hexp, not_not]

end SourceFile

namespace FileModel

/-- What becomes of a method of a loaded file in a run that is never cancelled. -/
theorem judge_loaded_method {m : FileModel} {f : SourceFile} (h : m.load = .ok f)
    (table : ExclusionTable) (method : Method) :
    let outcome := (f.judge table method .unlimited).1
    (method.kind = .initializer → outcome = .skipped .notAMethod) ∧
    (method.kind ≠ .initializer →
      ((¬ ∃ body, method.body = some body ∧ m.kindAt? body = some .block) →
        outcome = .skipped .noBody) ∧
      ∀ body, method.body = some body → m.kindAt? body = some .block →
        (m.childrenAt body = [] → outcome = .skipped .emptyBody) ∧
        (m.childrenAt body ≠ [] →
          ((∃ d, outcome = .violation d) ↔ m.MixesRoles table method.name body) ∧
          (¬ m.MixesRoles table method.name body → outcome = .clean))) := by
  intro outcome
  have hrep := represents_of_load h
  have houtcome : outcome = _ := f.judge_unlimited table method
  rw [SourceFile.bodyOf_eq hrep] at houtcome
  refine ⟨fun hk => by simpa [hk] using houtcome, fun hk => ⟨?_, fun body hb hblock => ⟨?_, ?_⟩⟩⟩
  · intro hno
    cases hb : method.body with
    | none => simpa [hk, hb] using houtcome
    | some body =>
      have hblock : m.kindAt? body ≠ some .block := fun hblock => hno ⟨body, hb, hblock⟩
      simpa [hk, hb, hblock] using houtcome
  · intro hc
    simpa [hk, hb, hblock, hc] using houtcome
  · intro hc
    have hmix := SourceFile.isViolation_iff hrep (linked_of_load h) table method.name body
    have ho : outcome = f.outcomeOf table method body := by
      simpa [hk, hb, hblock, hc] using houtcome
    rw [ho, SourceFile.outcomeOf, ← hmix]
    cases (f.fullEvidence table method.name body).isViolation with
    | true => simp
    | false => simp

/-- A loop over a sum, and a call with another sum as its argument for which two targets are
given. -/
def sumsAndCall : FileModel where
  path := ⟨"A.cs"⟩
  nodes :=
    [{ kind := .block, children := [1, 2] }, { kind := .forLoop, children := [3] },
      { kind := .invocation, children := [4] }, { kind := .binaryExpression },
      { kind := .binaryExpression }]
  calls :=
    [{ node := 2, target := .external "System" "Console" "Write" },
      { node := 2, target := .user "Load" }]

/-- The sum in the loop does not count but the one in the call does, and so does the last target. -/
theorem judge_loaded_method_sums_and_call :
    sumsAndCall.load = .ok sumsAndCall.loaded ∧
    ∃ d, (sumsAndCall.loaded.judge .empty { name := "Run", body := some 0 } .unlimited).1 =
      .violation d := by
  have hfaults : sumsAndCall.faults = [] := by decide
  have hload : sumsAndCall.load = .ok sumsAndCall.loaded := load_eq_ok_iff.2 ⟨hfaults, rfl⟩
  have hcall : Relation.TransGen sumsAndCall.Lists 0 2 := .single (by decide)
  have hsum : Relation.TransGen sumsAndCall.Lists 0 4 := hcall.tail (by decide)
  have hint : sumsAndCall.Integrates .empty "Run" 0 :=
    ⟨.user "Load", "Load", ⟨2, hcall, rfl, by decide⟩, rfl⟩
  have hcomp : sumsAndCall.Computes 0 := by
    have hparent : ∀ p < 4, sumsAndCall.Lists p 4 → sumsAndCall.kindAt? p ≠ some .forLoop := by
      decide
    exact ⟨4, hsum, rfl, fun p hp => hparent p ((faults_eq_nil.1 hfaults).forward p 4 hp).1 hp⟩
  obtain ⟨-, hmethod⟩ := judge_loaded_method hload .empty { name := "Run", body := some 0 }
  obtain ⟨-, hblock⟩ := hmethod (by decide)
  exact ⟨hload, ((hblock 0 rfl rfl).2 (by decide)).1.2 ⟨hint, .inr hcomp⟩⟩

end FileModel

end MethodRoles
