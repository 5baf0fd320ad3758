import PopulateQuery.CommandLine.Arguments
import PopulateQuery.CommandLine.LogFilter
import PopulateQuery.CommandLine.Report
import PopulateQuery.Json
import PopulateQuery.OptionsFile
import PopulateQuery.Query

/-!
# Running a call

`run` answers a call of the program from its arguments and its environment, both of which are
values: nothing is read or written here. A compiled value and an explained one take the same way,
load the options and compile, but an explanation reads the expressions first.

| here | there |
| --- | --- |
| `loadOptions` | `load_options` |
| `compileValue`, `explainValue` | `compile_value`, `explain_value` |
| `logFilter` | `init_tracing` |
| `perform`, `ending`, `run` | `main` |
-/

namespace PopulateQuery.CommandLine

/-- All that a run depends on beside its arguments. -/
structure Environment where
  files : FileSystem
  /-- The options file that is named when the arguments name none. -/
  optionsFile : Option String := none
  /-- The directory of the user's configuration. -/
  userDirectory : Option String := none
  /-- The text of the log filter. -/
  logFilter : String := ""
  /-- Whether styles are shown. -/
  colours : Bool := false

structure Setup where
  environment : Environment
  settings : Settings

namespace Setup

def paint (s : Setup) : Painter :=
  painter s.environment.colours

/-- The options file that is named: by the arguments, or else by the environment. -/
def namedFile (s : Setup) : Option String :=
  s.settings.optionsFile <|> s.environment.optionsFile

/-- Loads the named options file, or else the one at a usual place. -/
def loadOptionsWith (reader : DocumentReader) (s : Setup) : Transcript Options :=
  match s.namedFile with
  | some path => .ofLogged (.namedOptions path) (Options.loadWith reader s.environment.files path)
  | none =>
    .ofLogged .usualOptions
      (Options.discoverWith reader s.environment.files s.environment.userDirectory)

/-- `load_options`: the options that a call compiles under. -/
def loadOptions : Setup → Transcript Options :=
  loadOptionsWith tomlReader

def compileForest (s : Setup) (value : String) : Transcript Forest := do
  let options ← s.loadOptions
  .ofLogged .value (options.compile value)

def forestLines (s : Setup) (f : Forest) : List String :=
  match s.settings.format with
  | .json => [(Descriptor.listToJson f.descriptors).pretty]
  | .tree => treeLines s.paint f

/-- `compile_value`: compiles a value and shows it. -/
def compileValue (s : Setup) (value : String) : Transcript Unit := do
  if s.settings.verbose then
    .say [s.paint .label "Input:" ++ " " ++ s.paint .field value]
  let forest ← s.compileForest value
  .say (s.forestLines forest)

/-- `explain_value`: explains how a value is read and merged. -/
def explainValue (s : Setup) (value : String) : Transcript Unit := do
  .say (explanationHead s.paint value)
  let expressions ← .ofLogged .value (.ofExcept (Expression.readAll value))
  .say (expressionList s.paint expressions)
  let forest ← s.compileForest value
  .say (explanationTail s.paint forest)

/-- Does what the call asks for. -/
def perform (s : Setup) : Action → Transcript Unit
  | .introduce => .say (introductionLines s.paint)
  | .compile value => s.compileValue value
  | .explain value => s.explainValue value
  | .grammar => .say (grammarLines s.paint)

/-- `init_tracing`: a verbose call shows all of the program's own events. -/
def logFilter (s : Setup) : LogFilter :=
  if s.settings.verbose then .verbose else .ofText s.environment.logFilter

end Setup

inductive Ending where
  /-- The arguments make no sense. -/
  | misused (fault : UsageFault)
  /-- The program ran, and leaves texts and an exit code. -/
  | ended (code : Nat) (output log : String)
  deriving Repr, Inhabited

def unlines (lines : List String) : String :=
  "".intercalate (lines.map (· ++ "\n"))

/-- What a transcript leaves: its lines, and in the log the events that the filter shows, then the
failure. -/
def ending (s : Setup) (t : Transcript Unit) : Ending :=
  let log := s.logFilter.remarks ++ (t.events.filter s.logFilter.shows).map logLine
  match t.result with
  | .ok () => .ended 0 (unlines t.lines) (unlines log)
  | .error failure =>
    .ended 1 (unlines t.lines)
      (unlines (log ++ [s.paint .failure "Error:" ++ " " ++ failure.message]))

def run (environment : Environment) (arguments : List String) : Ending :=
  match Arguments.read arguments with
  | .error fault => .misused fault
  | .ok .version => .ended 0 (unlines [versionText]) ""
  | .ok (.help topic) => .ended 0 (unlines (helpLines environment.optionsFile topic)) ""
  | .ok (.run settings action) =>
    let setup : Setup := ⟨environment, settings⟩
    ending setup (setup.perform action)

/-- The paths that a call may look at. -/
def pathsInUse (environment : Environment) (arguments : List String) : List String :=
  match Arguments.read arguments with
  | .ok (.run settings _) =>
    match (Setup.mk environment settings).namedFile with
    | some path => [path]
    | none => Options.usualFiles environment.userDirectory
  | _ => []

end PopulateQuery.CommandLine
