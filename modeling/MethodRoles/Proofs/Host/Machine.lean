import MethodRoles.Host.Machine

/-!
# Files of a machine

A file can be created where a path leads to a place that is no directory. Its creation changes that
place and nothing else, so that all paths lead where they led before. What has been written is read
back.
-/
namespace MethodRoles

namespace Machine

variable {m : Machine} {place : Place} {content : ByteArray}

theorem entry_put (m : Machine) (place : Place) (e : Entry) (q : Place) :
    (m.put place e).entry q = if q = place then some e else m.entry q := rfl

/-! ## Creating files -/

/-- The place of the file that a path names, if there is one or it can be created. -/
def creatable? (m : Machine) (p : Path) : Option Place :=
  (m.resolve? p).filter fun place => !m.isDirectory place

theorem creatable?_eq_some_iff {p : Path} :
    m.creatable? p = some place ↔ m.resolve? p = some place ∧ m.isDirectory place = false := by
  simp [creatable?, Option.filter_eq_some_iff]

theorem writeText?_eq (m : Machine) (p : Path) (text : String) :
    m.writeText? p text = (m.creatable? p).map fun place => m.put place (.file text.toUTF8) := by
  unfold writeText? creatable?
  cases m.resolve? p with
  | none => rfl
  | some place => cases h : m.isDirectory place <;> simp [h, Option.filter_some]

/-- A file does not become a directory. -/
theorem isDirectory_put_file (h : m.isDirectory place = false) (q : Place) :
    (m.put place (.file content)).isDirectory q = m.isDirectory q := by
  by_cases hq : q = place
  · subst hq
    rw [h]
    simp [isDirectory, entry_put]
  · simp [isDirectory, entry_put, hq]

theorem follow?_put_file (h : m.isDirectory place = false) (q : Place) (part : List Char) :
    (m.put place (.file content)).follow? q part = m.follow? q part := by
  simp only [follow?, isDirectory_put_file h]

/-- Paths lead to the same places when a file has been created. -/
theorem resolve?_put_file (h : m.isDirectory place = false) (p : Path) :
    (m.put place (.file content)).resolve? p = m.resolve? p := by
  have hfollow : (m.put place (.file content)).follow? = m.follow? := by
    funext q part
    exact follow?_put_file h q part
  simp only [resolve?, hfollow]
  rfl

theorem fromUTF8?_toUTF8 (text : String) : String.fromUTF8? text.toUTF8 = some text :=
  dif_pos text.isValidUTF8

theorem readText?_put_file {p : Path} (h : m.creatable? p = some place) (text : String) :
    (m.put place (.file text.toUTF8)).readText? p = some text := by
  obtain ⟨hplace, hfile⟩ := creatable?_eq_some_iff.1 h
  rw [readText?, entryAt?, resolve?_put_file hfile, hplace, Option.bind_some, entry_put, if_pos rfl]
  exact fromUTF8?_toUTF8 text

/-! ## Running -/

/-- What something answers that is done on a machine, and the machine after it. -/
def run {ε α : Type} (m : Machine) (c : ExceptT ε (StateM Machine) α) : Except ε α × Machine :=
  c.run.run m

variable {ε α β : Type}

theorem run_bind (m : Machine) (c : ExceptT ε (StateM Machine) α)
    (f : α → ExceptT ε (StateM Machine) β) :
    m.run (c >>= f) = match m.run c with
      | (.ok a, m') => m'.run (f a)
      | (.error e, m') => (.error e, m') := by
  show (match m.run c with | (a, m') => (ExceptT.bindCont f a).run m') = _
  rcases m.run c with ⟨a | e, m'⟩ <;> rfl

theorem run_liftM (m : Machine) (x : StateM Machine α) :
    m.run (liftM x : ExceptT ε (StateM Machine) α) = (.ok (x.run m).1, (x.run m).2) := rfl

/-- What only looks at the machine goes on with what it has seen. -/
theorem run_bind_of_looks {x : StateM Machine α} {a : α} (h : x.run m = (a, m))
    (f : α → StateM Machine β) : (x >>= f).run m = (f a).run m := by
  rw [StateT.run_bind, h]
  rfl

theorem run_liftM_bind {x : StateM Machine α} {a : α} (h : x.run m = (a, m))
    (f : α → ExceptT ε (StateM Machine) β) :
    m.run ((liftM x : ExceptT ε (StateM Machine) α) >>= f) = m.run (f a) := by
  rw [run_bind, run_liftM, h]

theorem run_readText (m : Machine) (p : Path) :
    (Host.readText p : StateM Machine (Option String)).run m = (m.readText? p, m) := rfl

theorem run_writeText (m : Machine) (p : Path) (text : String) :
    (Host.writeText p text : StateM Machine Bool).run m =
      ((m.writeText? p text).isSome, (m.writeText? p text).getD m) := by
  have hlook : (get : StateM Machine Machine).run m = (m, m) := rfl
  simp only [Host.writeText, run_bind_of_looks hlook]
  cases m.writeText? p text <;> rfl

end Machine

end MethodRoles
