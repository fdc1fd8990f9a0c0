import MethodRoles.Config.File
import MethodRoles.Model.Codec
import MethodRoles.Model.Load
import MethodRoles.Report

/-!
# Checking program models

All models are loaded before anything is written.
-/
namespace MethodRoles

/-! ## What can go wrong with a command -/

/-- Why a program model was not loaded. -/
inductive ModelError where
  | unreadable
  | malformed
  | invalid (e : LoadError)
  deriving DecidableEq, Repr

def ModelError.message : ModelError → String
  | .unreadable => "File system error: Cannot read program model"
  | .malformed => "not a program model in JSON"
  | .invalid e => e.message

inductive CommandError where
  | config (e : ConfigError)
  | model (file : Path) (e : ModelError)
  | output (file : Path)
  | configExists
  | configNotWritten (file : Path)
  deriving DecidableEq, Repr

/-- The first line of what is said about an error. -/
def CommandError.message : CommandError → String
  | .config e => e.message
  | .model file _ => "Cannot load program model " ++ file.text
  | .output file => "Failed to create " ++ file.text
  | .configExists => "Configuration file already exists. Use --force to overwrite."
  | .configNotWritten file => "Failed to write " ++ file.text

/-! ## Checks -/

structure CheckRequest where
  models : List Path
  format : Option ReportFormat := none
  output : Option Path := none
  config : Option Path := none
  minMetric : Option Nat := none
  noParallel : Bool := false
  jobs : Option Nat := none
  includeGenerated : Bool := false
  plain : Bool := false
  deriving DecidableEq, Repr, Inhabited

namespace CheckRequest

/-- What is asked for on the command line goes before the configuration. -/
def override (r : CheckRequest) (c : Config) : Config :=
  { c with
    rule := { c.rule with minMetric := r.minMetric.getD c.rule.minMetric }
    analysis := { c.analysis with
      parallel := c.analysis.parallel && !r.noParallel
      jobs := r.jobs.getD c.analysis.jobs
      includeGenerated := c.analysis.includeGenerated || r.includeGenerated } }

def formatUnder (r : CheckRequest) (c : Config) : ReportFormat :=
  (r.format.or c.output.defaultFormat).getD .terminal

end CheckRequest

/-- The files of a program model that is given as a text. -/
def loadText (text : String) : Except ModelError (List SourceFile) :=
  match ProgramModel.ofJson? text with
  | none => .error .malformed
  | some model => model.load.mapError .invalid

namespace Command

variable {m : Type → Type} [Monad m] [Host m]

def loadModel (file : Path) : ExceptT CommandError m (List SourceFile) := do
  match ← Host.readText (m := m) file with
  | none => throw (.model file .unreadable)
  | some text =>
    match loadText text with
    | .error e => throw (.model file e)
    | .ok files => return files

/-- The files of some program models, in order; the first bad model stops it. -/
def loadModels : List Path → ExceptT CommandError m (List SourceFile)
  | [] => return []
  | file :: rest => do
    let files ← loadModel file
    return files ++ (← loadModels rest)

/-- Writes to a file, or prints if there is none to write to. -/
def deliver (file : Option Path) (text : String) : ExceptT CommandError m Unit := do
  match file with
  | none => Host.print (m := m) text
  | some file => if !(← Host.writeText (m := m) file text) then throw (.output file)

/-- Colours are used as the configuration says, and else on a terminal. -/
def useColor (plain : Bool) (setting : Option Bool) : m Bool := do
  if plain then return false
  else match setting with
    | some b => return b
    | none => Host.isTerminal

def check (r : CheckRequest) : ExceptT CommandError m Report := do
  match ← Config.resolve (m := m) r.config with
  | .error e => throw (.config e)
  | .ok found =>
    let config := r.override found
    let color ← useColor (m := m) r.plain config.output.useColor
    let files ← loadModels r.models
    let report := Report.ofFiles config files
    deliver r.output (report.render (r.formatUnder config) color)
    return report

end Command

end MethodRoles
