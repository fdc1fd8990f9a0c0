import MethodRoles.Location
import MethodRoles.Text

/-!
# Hosts

What the commands need of the machine they run on. They can then be run on a real machine as well as
on one that is a value.
-/
namespace MethodRoles

class Host (m : Type → Type) where
  /-- The directory that relative paths start from; `none` if it cannot be told, as when it has been
  removed. -/
  workingDirectory : m (Option Path)
  /-- The text of a file; `none` if there is no such file or it holds no text. -/
  readText : Path → m (Option String)
  /-- Whether there is anything under a path. -/
  isTaken : Path → m Bool
  /-- Makes a text the whole content of a file, which need not exist before; `false` if that cannot
  be done. -/
  writeText : Path → String → m Bool
  print : String → m Unit
  /-- Whether what is printed goes to a terminal. -/
  isTerminal : m Bool

/-!
## A machine as a value

A machine has a tree of directories and files without links, and collects what is printed. A path is
followed part by part: every part but the last has to name a directory, and so has the last one if a
slash follows it.
-/

/-- The names on the way from the root to a place, the last one first. -/
abbrev Place := List String

inductive Entry where
  | directory
  | file (content : ByteArray)

structure Machine where
  entry : Place → Option Entry
  workingDirectory : Place := []
  output : String := ""
  terminal : Bool := false

namespace Machine

/-- A machine with nothing but its root directory. -/
def empty : Machine where
  entry place := if place = [] then some .directory else none

instance : Inhabited Machine := ⟨empty⟩

def put (m : Machine) (place : Place) (e : Entry) : Machine :=
  { m with entry := fun p => if p = place then some e else m.entry p }

def isDirectory (m : Machine) (place : Place) : Bool :=
  match m.entry place with
  | some .directory => true
  | _ => false

/-- Adds a directory and those around it. -/
def putDirectory (m : Machine) : Place → Machine
  | [] => m.put [] .directory
  | name :: place => (m.putDirectory place).put (name :: place) .directory

/-- Names have up to 255 bytes and paths up to 4095; neither holds a null character. -/
def isName (name : List Char) : Bool :=
  (String.ofList name).utf8ByteSize ≤ 255 && !name.contains '\x00'

def isPathText (text : String) : Bool := text != "" && text.utf8ByteSize ≤ 4095

/-- Follows one part of a path. -/
def follow? (m : Machine) (place : Place) (part : List Char) : Option Place :=
  if !m.isDirectory place then none
  else match part with
    | [] | ['.'] => some place
    | ['.', '.'] => some place.tail
    | name => if isName name then some (String.ofList name :: place) else none

/-- The place that a path names, whether or not there is anything. -/
def resolve? (m : Machine) (p : Path) : Option Place :=
  if isPathText p.text then
    (Text.segments '/' p.text.toList).foldlM m.follow?
      (if p.isAbsolute then [] else m.workingDirectory)
  else none

def entryAt? (m : Machine) (p : Path) : Option Entry := (m.resolve? p).bind m.entry

def readText? (m : Machine) (p : Path) : Option String :=
  match m.entryAt? p with
  | some (.file content) => String.fromUTF8? content
  | _ => none

/-- What a file shows to someone who looks at it, whether it holds a text or not. -/
def view? (m : Machine) (p : Path) : Option String :=
  match m.entryAt? p with
  | some (.file content) => some (Text.ofBytes content)
  | _ => none

/-- The machine after a text has been made the content of a file. -/
def writeText? (m : Machine) (p : Path) (text : String) : Option Machine :=
  match m.resolve? p with
  | none => none
  | some place => if m.isDirectory place then none else some (m.put place (.file text.toUTF8))

/-- The absolute path of a place. -/
def pathOf (place : Place) : Path :=
  match place.reverse with
  | [] => ⟨"/"⟩
  | names => ⟨String.join (names.map ("/" ++ ·))⟩

/-- The path of the working directory, if it is still there. -/
def workingPath? (m : Machine) : Option Path :=
  if m.isDirectory m.workingDirectory then some (pathOf m.workingDirectory) else none

instance : Host (StateM Machine) where
  workingDirectory := return (← get).workingPath?
  readText p := return (← get).readText? p
  isTaken p := return ((← get).entryAt? p).isSome
  writeText p text := do
    match (← get).writeText? p text with
    | some m => set m; return true
    | none => return false
  print text := modify fun m => { m with output := m.output ++ text }
  isTerminal := return (← get).terminal

end Machine

end MethodRoles
