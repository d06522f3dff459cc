import LocalizationMemory.Settings
import LocalizationMemory.Settings.EnvFile

/-!
# Settings from the environment

The variables of the environment are completed from two environment files before
settings are taken from them. The local file is looked for in the working directory
and in six directories above it; the first thing of its name ends the search. The
common file is looked for in all directories above, and only a file counts. The local
file comes first, so that what it sets stands.

## Main definitions

* `EnvNode`, `EnvDirectory` — what directories hold
* `ProcessVariables` — the variables of a process, whose values need not be texts
* `Settings.completeVariables` — the variables, completed from the files
* `Settings.ofEnvironment` — settings from the environment
* `Settings.ofProcess` — settings from the variables of a process
-/

namespace LocalizationMemory

/-- What a name in a directory stands for. -/
inductive EnvNode where
  | directory
  | file (bytes : List UInt8)
  deriving DecidableEq, Repr

/-- What a directory holds, by name. -/
abbrev EnvDirectory := List (String × EnvNode)

/-- The variables of a process, with the bytes of their values. -/
abbrev ProcessVariables := Dict (List UInt8)

/-- The variables of a process whose values are texts. The others count as not set. -/
def ProcessVariables.texts (process : ProcessVariables) : Variables :=
  .ofList <| process.entries.filterMap fun p =>
    (String.fromUTF8? ⟨p.2.toArray⟩).map fun value => (p.1, value)

namespace Settings

/-- The name of the local file. -/
def localFileName : String := ".env.local"

/-- The name of the common file. -/
def commonFileName : String := ".env"

/-- How many directories the local file is looked for in. -/
def localReach : Nat := 7

/-- What a name stands for in a directory. -/
def node? (name : String) (directory : EnvDirectory) : Option EnvNode :=
  (directory.find? (·.1 == name)).map (·.2)

/-- The local file that counts, of directories from the working directory upwards. -/
def localFile? (directories : List EnvDirectory) : Option EnvNode :=
  (directories.take localReach).findSome? (node? localFileName)

/-- The common file that counts, of directories from the working directory upwards. -/
def commonFile? (directories : List EnvDirectory) : Option EnvNode :=
  directories.findSome? fun d => (node? commonFileName d).filter (· ≠ .directory)

/-- The variables after what was found. A directory sets nothing. -/
def loadNode (node : Option EnvNode) (env : Variables) : Except Failure Variables :=
  match node with
  | some (.file bytes) => EnvFile.load bytes env
  | _ => .ok env

/-- The variables, completed from the files of directories from the working directory upwards. -/
def completeVariables (directories : List EnvDirectory) (env : Variables) :
    Except Failure Variables := do
  -- A fault within the local file ends that file alone; the common one is still read.
  loadNode (commonFile? directories) (← loadNode (localFile? directories) env)

/-- Settings from the variables of the environment and from files. -/
def ofEnvironment (directories : List EnvDirectory) (env : Variables) :
    Except Failure Settings := do
  let completed ← completeVariables directories env
  (ofVariables completed.get?).mapError .fault

/-- Settings from the variables of a process and from files. -/
def ofProcess (directories : List EnvDirectory) (process : ProcessVariables) :
    Except Failure Settings :=
  ofEnvironment directories process.texts

end Settings

end LocalizationMemory
