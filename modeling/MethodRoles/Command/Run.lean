import MethodRoles.Command.Check
import MethodRoles.Command.Line
import MethodRoles.Report

/-!
# Running a command line
-/
namespace MethodRoles

/-! ## Starting a configuration file -/

namespace Command

/-- The configuration file that a project starts with. -/
def template : String :=
    "# iosplint Configuration\n" ++
    "\n" ++
    "[rule]\n" ++
    "enabled = true\n" ++
    "# Methods with a lower metric are not reported\n" ++
    "min_metric = 0\n" ++
    "\n" ++
    "[exclusions]\n" ++
    "# Keep the built-in table (Task.Run, ConfigureAwait, test assertions,\n" ++
    "# snapshot verification, logging)\n" ++
    "use_defaults = true\n" ++
    "\n" ++
    "# [[exclusions.rules]]\n" ++
    "# category = \"logging\"\n" ++
    "# namespace = \"NLog\"\n" ++
    "\n" ++
    "[analysis]\n" ++
    "parallel = true\n" ++
    "jobs = 0\n" ++
    "include_generated = false\n" ++
    "\n" ++
    "[output]\n" ++
    "default_format = \"terminal\"\n"

variable {m : Type → Type} [Monad m] [Host m]

/-- Writes the first configuration; what is there already stays unless `force` is set. -/
def writeTemplate (file : Path) (force : Bool) : ExceptT CommandError m Unit := do
  if (← Host.isTaken (m := m) file) && !force then throw .configExists
  if !(← Host.writeText (m := m) file template) then throw (.configNotWritten file)

def init (force : Bool) : ExceptT CommandError m Unit := do
  writeTemplate Config.fileName force
  Host.print (m := m) ("Created " ++ Config.fileName.text ++ " configuration file\n")

end Command

/-! ## Explaining the rule -/

/-- The criteria of a rule in words. -/
def ExclusionRule.describe (r : ExclusionRule) : String :=
  ", ".intercalate
    ((r.inNamespace.map ("namespace " ++ ·)).toList ++ (r.ofType.map ("type " ++ ·)).toList ++
      (r.member.map ("member " ++ ·)).toList)

/-- What the rule says and which calls it does not count. -/
def Rule.explain (rule : Rule) (table : ExclusionTable) (color : Bool) : String :=
  Text.ofLines <|
    [Paint.apply color .bold rule.id ++ " " ++ Paint.apply color .bold rule.title,
     "  Category: " ++ rule.category,
     "  Severity: " ++ rule.severity.name,
     "  " ++ rule.description,
     "",
     "A method integrates when it calls methods declared in the analyzed code,",
     "and operates when it calls external APIs or evaluates binary expressions.",
     "Doing both in one method is reported.",
     "",
     "Metric:",
     "  integrations > operations  =>  operations + 2 * expressions",
     "  otherwise                  =>  integrations",
     "",
     Paint.apply color .bold "Excluded calls" ++ " (" ++ toString table.rules.length ++ ")"] ++
    table.rules.map fun r => "  [" ++ r.category.label ++ "] " ++ r.describe

namespace Command

variable {m : Type → Type} [Monad m] [Host m]

def explain (config : Option Path) : ExceptT CommandError m Unit := do
  match ← Config.resolve (m := m) config with
  | .error e => throw (.config e)
  | .ok config =>
    let color ← Host.isTerminal (m := m)
    Host.print (m := m) (Rule.segregation.explain config.exclusions.table color)

end Command

/-! ## Command lines -/

inductive Exit where
  | success
  | failure (e : CommandError)
  | usage (e : UsageError)
  deriving DecidableEq, Repr

/-- Violations do not make a run fail. -/
def Exit.code : Exit → Nat
  | .success => 0
  | .failure _ => 1
  | .usage e => e.exitCode

namespace CommandLine

/-- The variable that names a configuration file. -/
def configVariable : String := "IOSPLINT_CONFIG"

def versionText : String := "iosplint 0.1.0\n"

variable {m : Type → Type} [Monad m] [Host m]

def perform : Request → ExceptT CommandError m Unit
  | .check r _ => do
    let _ ← Command.check r
  | .init force => Command.init force
  | .explain config => Command.explain config

def run (environment : Option String) (args : List String) : m Exit := do
  match parse environment args with
  | .error .versionAsked =>
    Host.print versionText
    return .usage .versionAsked
  | .error e => return .usage e
  | .ok request =>
    match ← (perform request).run with
    | .error e => return .failure e
    | .ok () => return .success

end CommandLine

end MethodRoles
