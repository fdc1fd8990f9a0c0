import MethodRoles.Command.Check

/-!
# The command line

Arguments are read from left to right. The values of an option or of the models are kept pending
until the next argument that does not belong to them, and are only then read and checked; so an
argument that nobody knows is reported before a bad value that stands in front of it.
-/
namespace MethodRoles

inductive Request where
  | check (r : CheckRequest) (verbosity : Nat)
  | init (force : Bool)
  | explain (config : Option Path)
  deriving DecidableEq, Repr

/-- Why a command line is not carried out. -/
inductive UsageError where
  | nothingAsked
  | missingModel
  | unknownArgument
  | unknownCommand
  /-- A name that is not one of those allowed, an empty path, or no value at all. -/
  | invalidValue
  | invalidNumber
  /-- An option that may come once came again. -/
  | repeated
  /-- A value was given to an option that takes none. -/
  | surplusValue
  | helpAsked
  | versionAsked
  deriving DecidableEq, Repr

/-- To ask for help or for the version is no failure. -/
def UsageError.exitCode : UsageError → Nat
  | .helpAsked | .versionAsked => 0
  | _ => 2

namespace CommandLine

inductive Arg where
  | models
  | format
  | output
  | config
  | minMetric
  | noParallel
  | jobs
  | includeGenerated
  | plain
  | verbose
  | force
  | help
  | version
  deriving DecidableEq, Repr

def Arg.takesValue : Arg → Bool
  | .models | .format | .output | .config | .minMetric | .jobs => true
  | _ => false

/-- The arguments of a command: its options, and what an argument that is none belongs to. -/
structure Grammar where
  short : List (Char × Arg)
  long : List (String × Arg)
  positional : Option Arg := none

def Grammar.top : Grammar where
  short := [('h', .help), ('V', .version)]
  long := [("help", .help), ("version", .version)]

def Grammar.check : Grammar where
  short := [('f', .format), ('o', .output), ('c', .config), ('j', .jobs), ('v', .verbose),
    ('h', .help)]
  long := [("format", .format), ("output", .output), ("config", .config),
    ("min-metric", .minMetric), ("no-parallel", .noParallel), ("jobs", .jobs),
    ("include-generated", .includeGenerated), ("plain", .plain), ("verbose", .verbose),
    ("help", .help)]
  positional := some .models

def Grammar.init : Grammar where
  short := [('f', .force), ('h', .help)]
  long := [("force", .force), ("help", .help)]

def Grammar.explain : Grammar where
  short := [('c', .config), ('h', .help)]
  long := [("config", .config), ("help", .help)]

/-- What has been read so far. -/
structure Reading where
  request : CheckRequest := { models := [] }
  verbosity : Nat := 0
  force : Bool := false
  /-- The single-use options that came. -/
  given : List Arg := []
  /-- An argument whose values are still being collected, with those values. -/
  pending : Option (Arg × List String) := none
  /-- From here on nothing is an option. -/
  optionsEnded : Bool := false

def readPath (s : String) : Except UsageError Path :=
  if s = "" then .error .invalidValue else .ok ⟨s⟩

def readFormat (s : String) : Except UsageError ReportFormat :=
  match ReportFormat.ofName? s with
  | some f => .ok f
  | none => .error .invalidValue

def readNumber (s : String) : Except UsageError Nat :=
  match Text.readWord? s.toList with
  | some n => .ok n
  | none => .error .invalidNumber

namespace Reading

/-- The option is taken as given; it must not have come before. -/
def once (r : Reading) (a : Arg) : Except UsageError Reading :=
  if a ∈ r.given then .error .repeated else .ok { r with given := a :: r.given }

/-- Enters the value of a single-use option into a request. -/
def enter (request : CheckRequest) (a : Arg) (value : String) : Except UsageError CheckRequest := do
  match a with
  | .format => return { request with format := some (← readFormat value) }
  | .output => return { request with output := some (← readPath value) }
  | .config => return { request with config := some (← readPath value) }
  | .minMetric => return { request with minMetric := some (← readNumber value) }
  | .jobs => return { request with jobs := some (← readNumber value) }
  | _ => return request

/-- Takes a single-use option and its value. -/
def store (r : Reading) (a : Arg) (value : String) : Except UsageError Reading := do
  let r ← r.once a
  return { r with request := ← enter r.request a value }

/-- Takes an argument that has no values. -/
def switch (r : Reading) (a : Arg) : Except UsageError Reading :=
  match a with
  | .help => .error .helpAsked
  | .version => .error .versionAsked
  | .verbose => .ok { r with verbosity := min 255 (r.verbosity + 1) }
  | .noParallel => return { ← r.once a with request := { r.request with noParallel := true } }
  | .includeGenerated =>
    return { ← r.once a with request := { r.request with includeGenerated := true } }
  | .plain => return { ← r.once a with request := { r.request with plain := true } }
  | .force => return { ← r.once a with force := true }
  | _ => .ok r

/-- Takes an argument with all its values. -/
def take (r : Reading) (a : Arg) (values : List String) : Except UsageError Reading :=
  if a.takesValue then
    match a, values with
    | _, [] => .error .invalidValue
    | .models, values => do
      let paths ← values.mapM readPath
      return { r with request := { r.request with models := r.request.models ++ paths } }
    | a, value :: _ => r.store a value
  else r.switch a

/-- Takes the argument whose values were being collected. -/
def settle (r : Reading) : Except UsageError Reading :=
  match r.pending with
  | none => .ok r
  | some (a, values) => { r with pending := none }.take a values

/-- An option without a value of its own: a switch, or an option whose value comes next. -/
def option (r : Reading) (a : Arg) : Except UsageError Reading := do
  let r ← r.settle
  if a.takesValue then return { r with pending := some (a, []) } else r.switch a

/-- An option together with its value. -/
def optionWith (r : Reading) (a : Arg) (value : String) : Except UsageError Reading := do
  (← r.settle).take a [value]

/-- The text after two dashes: a name, or a name, an equals sign and a value. -/
def long (g : Grammar) (r : Reading) (cs : List Char) : Except UsageError Reading :=
  let name := String.ofList (cs.takeWhile (· ≠ '='))
  match g.long.lookup name, cs.dropWhile (· ≠ '=') with
  | none, _ => .error .unknownArgument
  | some a, [] => r.option a
  | some a, _ :: value =>
    if a.takesValue then r.optionWith a (String.ofList value) else .error .surplusValue

/-- The text after one dash: switches, and at the end an option with its value, which an equals sign
may come before. -/
def short (g : Grammar) (r : Reading) : List Char → Except UsageError Reading
  | [] => .ok r
  | c :: cs =>
    match g.short.lookup c with
    | none => .error .unknownArgument
    | some a =>
      if a.takesValue then
        match cs with
        | [] => r.option a
        | '=' :: value => r.optionWith a (String.ofList value)
        | value => r.optionWith a (String.ofList value)
      else do short g (← r.option a) cs

/-- An argument that is no option. -/
def positional (g : Grammar) (r : Reading) (arg : String) : Except UsageError Reading :=
  match g.positional with
  | none => .error .unknownArgument
  | some a =>
    match r.pending with
    | some (b, values) =>
      if a = b then .ok { r with pending := some (a, values ++ [arg]) }
      else do return { ← r.settle with pending := some (a, [arg]) }
    | none => .ok { r with pending := some (a, [arg]) }

/-- A value for the option that waits for one, or else an argument that is no option. -/
def plainArg (g : Grammar) (r : Reading) (arg : String) : Except UsageError Reading :=
  match r.pending with
  | some (a, []) => .ok { r with pending := some (a, [arg]) }
  | _ => r.positional g arg

def read (g : Grammar) (r : Reading) (arg : String) : Except UsageError Reading :=
  if r.optionsEnded then r.positional g arg
  else match arg.toList with
    | ['-', '-'] => .ok { r with optionsEnded := true }
    | '-' :: '-' :: cs => r.long g cs
    | '-' :: c :: cs => r.short g (c :: cs)
    | _ => r.plainArg g arg

/-- Reads all arguments of a command. The environment may name a configuration where the arguments
name none. -/
def readAll (g : Grammar) (environment : Option String) (args : List String) :
    Except UsageError Reading := do
  let r ← (← args.foldlM (read g) {}).settle
  match environment with
  | some value =>
    if g.long.any (·.2 = .config) && !(r.given.contains .config) then r.store .config value
    else return r
  | none => return r

end Reading

def parseCheck (environment : Option String) (args : List String) : Except UsageError Request := do
  let r ← Reading.readAll .check environment args
  if r.request.models = [] then throw .missingModel
  return .check r.request r.verbosity

def parseInit (args : List String) : Except UsageError Request := do
  return .init (← Reading.readAll .init none args).force

def parseExplain (environment : Option String) (args : List String) :
    Except UsageError Request := do
  return .explain (← Reading.readAll .explain environment args).request.config

def commands : List String := ["check", "init", "explain", "help"]

/-- Help may be asked for on one command. -/
def parseHelp : List String → Except UsageError Request
  | [] => .error .helpAsked
  | [name] => .error (if name ∈ commands then .helpAsked else .unknownCommand)
  | _ => .error .unknownCommand

/-- Reads a command line without the name of the program. `environment` is the configuration file
that the environment names. -/
def parse (environment : Option String) : List String → Except UsageError Request
  | [] => .error .nothingAsked
  | "check" :: args => parseCheck environment args
  | "init" :: args => parseInit args
  | "explain" :: args => parseExplain environment args
  | "help" :: args => parseHelp args
  | ["--"] => .error .nothingAsked
  | "--" :: name :: _ =>
    .error (if name ∈ commands then .unknownArgument else .unknownCommand)
  | arg :: _ =>
    match arg.toList with
    | '-' :: _ :: _ => do
      let _ ← Reading.read .top {} arg
      throw .nothingAsked
    | _ => .error .unknownCommand

/-- The level of the log messages that a verbosity asks for. -/
def logLevel : Nat → String
  | 0 => "warn"
  | 1 => "info"
  | 2 => "debug"
  | _ => "trace"

end CommandLine

end MethodRoles
