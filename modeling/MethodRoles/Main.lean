import MethodRoles.Command.Run

/-!
# The program

The commands on the machine that the program runs on.
-/
namespace MethodRoles

instance : Host IO where
  workingDirectory := do
    try return some ⟨(← IO.currentDir).toString⟩
    catch _ => return none
  readText p := do
    try return String.fromUTF8? (← IO.FS.readBinFile p.text)
    catch _ => return none
  isTaken p := (System.mkFilePath [p.text]).pathExists
  writeText p text := do
    try
      IO.FS.writeFile p.text text
      return true
    catch _ => return false
  print text := IO.print text
  isTerminal := do (← IO.getStdout).isTty

/-- What the program says on the command lines that it does not carry out. -/
def UsageError.advice : UsageError → String
  | .nothingAsked => "a command is missing: check, init or explain"
  | .missingModel => "a program model is missing"
  | .unknownArgument => "unknown argument"
  | .unknownCommand => "unknown command"
  | .invalidValue => "invalid or missing value"
  | .invalidNumber => "invalid number"
  | .repeated => "an option is given twice"
  | .surplusValue => "an option takes no value"
  | .helpAsked => "commands: check MODEL..., init, explain"
  | .versionAsked => ""

end MethodRoles

open MethodRoles in
def main (args : List String) : IO UInt32 := do
  let exit ← CommandLine.run (← IO.getEnv CommandLine.configVariable) args
  match exit with
  | .success | .usage .versionAsked => pure ()
  | .usage .helpAsked => IO.println UsageError.helpAsked.advice
  | .usage e => IO.eprintln ("error: " ++ e.advice)
  | .failure (.model file cause) =>
    IO.eprintln ("Error: " ++ (CommandError.model file cause).message)
    IO.eprintln ("\nCaused by:\n    " ++ cause.message)
  | .failure e => IO.eprintln ("Error: " ++ e.message)
  return exit.code.toUInt32
