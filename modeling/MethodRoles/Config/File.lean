import MethodRoles.Config.Basic
import MethodRoles.Host.Machine
import MethodRoles.Toml.Document

/-!
# Configuration files

A configuration is named explicitly, or it is the first valid one in a directory and its parents.
-/
namespace MethodRoles

inductive ConfigError where
  | unreadable
  | invalid (file : Path)
  deriving DecidableEq, Repr

def ConfigError.message : ConfigError → String
  | .unreadable => "File system error: Cannot read configuration"
  | .invalid file => "Configuration error: " ++ file.text ++ ": not a valid configuration"

namespace Config

def ofToml? (text : String) : Option Config := (Toml.read? text).bind (ofValue? Toml.dialect)

def fileName : Path := ⟨".iosplint.toml"⟩

/-- The number of directories in which a configuration is looked for. -/
def searchLimit : Nat := 10

variable {m : Type → Type} [Monad m] [Host m]

/-- The configuration in a file that was asked for. -/
def load (file : Path) : m (Except ConfigError Config) := do
  match ← Host.readText file with
  | none => return .error .unreadable
  | some text =>
    match ofToml? text with
    | none => return .error (.invalid file)
    | some c => return .ok c

/-- The configuration of the first of some directories that has a valid one, else the default. -/
def firstIn : List Path → m Config
  | [] => return {}
  | directory :: directories => do
    match (← Host.readText (directory.join fileName)).bind ofToml? with
    | some c => return c
    | none => firstIn directories

/-- The configuration for work in a directory. -/
def discover (start : Path) : m Config := firstIn (start.ancestors searchLimit)

/-- The configuration for the working directory. Where that is cannot always be told; then it is the
default. -/
def discoverHere : m Config := do
  match ← Host.workingDirectory with
  | some directory => discover directory
  | none => return {}

/-- The configuration in the file that was asked for, or else for the working directory. -/
def resolve (file : Option Path) : m (Except ConfigError Config) := do
  match file with
  | some file => load file
  | none => return .ok (← discoverHere)

end Config

end MethodRoles
