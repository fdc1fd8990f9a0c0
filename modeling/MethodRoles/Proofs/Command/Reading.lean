import MethodRoles.Command.Check
import MethodRoles.Proofs.Data.Lists
import MethodRoles.Proofs.Host.Machine
import MethodRoles.Proofs.Model.RoundTrip

/-!
# What commands read

A command reads its configuration and its models without a change to the machine. What it has read
is then a function of the machine, and so is the first fault in it.
-/
namespace MethodRoles

namespace Machine

/-! ## Configurations -/

/-- The configuration in a directory, if there is a valid one. -/
def configIn? (m : Machine) (directory : Path) : Option Config :=
  (m.readText? (directory.join Config.fileName)).bind Config.ofToml?

/-- The configuration in the file that was asked for, which has to be valid. If none was asked for,
it is the nearest valid one around the working directory. It is the default if there is none, or if
the working directory is gone. -/
def configuration (m : Machine) : Option Path → Except ConfigError Config
  | some file =>
    match m.readText? file with
    | none => .error .unreadable
    | some text =>
      match Config.ofToml? text with
      | none => .error (.invalid file)
      | some c => .ok c
  | none => .ok ((m.workingPath?.bind fun directory =>
      (directory.ancestors Config.searchLimit).findSome? m.configIn?).getD {})

theorem run_firstIn (m : Machine) (directories : List Path) :
    (Config.firstIn directories : StateM Machine Config).run m =
      ((directories.findSome? m.configIn?).getD {}, m) := by
  induction directories with
  | nil => rfl
  | cons directory directories ih =>
    rw [Config.firstIn, run_bind_of_looks (m.run_readText _), List.findSome?_cons, configIn?]
    cases (m.readText? (directory.join Config.fileName)).bind Config.ofToml? with
    | none => exact ih
    | some c => rfl

theorem run_load (m : Machine) (file : Path) :
    (Config.load file : StateM Machine (Except ConfigError Config)).run m =
      (m.configuration (some file), m) := by
  rw [Config.load, run_bind_of_looks (m.run_readText file), configuration]
  cases m.readText? file with
  | none => rfl
  | some text =>
    dsimp only
    cases Config.ofToml? text <;> rfl

theorem run_discoverHere (m : Machine) :
    (Config.discoverHere : StateM Machine Config).run m =
      ((m.workingPath?.bind fun directory =>
        (directory.ancestors Config.searchLimit).findSome? m.configIn?).getD {}, m) := by
  have hlook : (Host.workingDirectory : StateM Machine (Option Path)).run m = (m.workingPath?, m) :=
    rfl
  rw [Config.discoverHere, run_bind_of_looks hlook]
  cases m.workingPath? with
  | none => rfl
  | some directory => exact m.run_firstIn _

theorem run_resolve (m : Machine) (file : Option Path) :
    (Config.resolve file : StateM Machine (Except ConfigError Config)).run m =
      (m.configuration file, m) := by
  cases file with
  | some file => exact m.run_load file
  | none =>
    rw [Config.resolve, run_bind_of_looks m.run_discoverHere]
    rfl

/-- Only a configuration that was asked for can be at fault. -/
theorem configuration_eq_error_iff {m : Machine} {file : Option Path} {e : ConfigError} :
    m.configuration file = .error e ↔ ∃ p, file = some p ∧
      ((m.readText? p = none ∧ e = .unreadable) ∨
        ∃ text, m.readText? p = some text ∧ Config.ofToml? text = none ∧ e = .invalid p) := by
  cases file with
  | none => simp [configuration]
  | some p =>
    cases hread : m.readText? p with
    | none => simp [configuration, hread, eq_comm]
    | some text =>
      cases hconfig : Config.ofToml? text <;> simp [configuration, hread, hconfig, eq_comm]

/-! ## Models -/

/-- The files of the program model under a path. -/
def filesIn (m : Machine) (p : Path) : Except ModelError (List SourceFile) :=
  match m.readText? p with
  | none => .error .unreadable
  | some text =>
    match ProgramModel.ofJson? text with
    | none => .error .malformed
    | some model =>
      match model.load with
      | .error e => .error (.invalid e)
      | .ok files => .ok files

/-- The same for a command, which says what path is at fault. -/
def modelIn (m : Machine) (p : Path) : Except CommandError (List SourceFile) :=
  (m.filesIn p).mapError (.model p)

theorem modelIn_eq_ok_iff {m : Machine} {p : Path} {files : List SourceFile} :
    m.modelIn p = .ok files ↔ m.filesIn p = .ok files := by
  rw [modelIn]
  cases m.filesIn p <;> simp [Except.mapError]

theorem modelIn_eq_error_iff {m : Machine} {p : Path} {e : CommandError} :
    m.modelIn p = .error e ↔ ∃ fault, m.filesIn p = .error fault ∧ e = .model p fault := by
  rw [modelIn]
  cases m.filesIn p <;> simp [Except.mapError, eq_comm]

/-- A text that is read as the model can be read at the path. -/
def Stores (m : Machine) (p : Path) (model : ProgramModel) : Prop :=
  ∃ text, m.readText? p = some text ∧ ProgramModel.ofJson? text = some model

theorem stores_of_readText? {m : Machine} {p : Path} {model : ProgramModel}
    (h : m.readText? p = some model.toJson) (hrange : model.InRange) : m.Stores p model := by
  refine ⟨model.toJson, h, ?_⟩
  rw [ProgramModel.ofJson?, ProgramModel.toJson, Json.read?_pretty model.plain_toValue,
    Option.bind_some, ProgramModel.ofValue?_toValue _ hrange]

theorem filesIn_of_stores {m : Machine} {p : Path} {model : ProgramModel} (h : m.Stores p model) :
    m.filesIn p = model.load.mapError .invalid := by
  obtain ⟨text, hread, htext⟩ := h
  rw [filesIn, hread]
  dsimp only
  rw [htext]
  dsimp only
  cases model.load <;> rfl

theorem modelIn_of_stores {m : Machine} {p : Path} {model : ProgramModel} (h : m.Stores p model) :
    m.modelIn p = model.load.mapError fun e => .model p (.invalid e) := by
  rw [modelIn, filesIn_of_stores h]
  cases model.load <;> rfl

theorem run_loadModel (m : Machine) (p : Path) :
    m.run (Command.loadModel p) = (m.modelIn p, m) := by
  rw [Command.loadModel, run_liftM_bind (m.run_readText p), modelIn, filesIn]
  cases m.readText? p with
  | none => rfl
  | some text =>
    dsimp only [loadText]
    cases ProgramModel.ofJson? text with
    | none => rfl
    | some model =>
      dsimp only
      cases model.load <;> rfl

/-- The models are read one after the other, up to the first bad one. -/
theorem run_loadModels (m : Machine) (paths : List Path) :
    m.run (Command.loadModels paths) = ((paths.mapM m.modelIn).map List.flatten, m) := by
  induction paths with
  | nil => rfl
  | cons p paths ih =>
    rw [Command.loadModels, run_bind, run_loadModel]
    cases hp : m.modelIn p with
    | error e =>
      rw [Traversal.mapM_cons_of_error hp]
      rfl
    | ok files =>
      dsimp only
      rw [run_bind, ih, Traversal.mapM_cons_of_ok hp]
      cases paths.mapM m.modelIn <;> rfl

end Machine

end MethodRoles
