/-!
# Arguments

The command line takes one value to compile, or a command: `explain` with a value, or `grammar`.
Options stand before the command; a command may also follow the value. Short options without a
value may be written together, and the value of an option may follow it as the next argument,
after an equals sign, or, behind a short option, directly. After `--` every argument is a value.
No option may be given twice. Arguments are taken in order, and the first that does not fit
decides.

| here | there |
| --- | --- |
| `Format`, `Action` | `OutputFormat`, `Commands` with the lone value and its absence |
| `Settings` | the options of `Cli` |
| `read` | `parse` of `Cli` |
| `helpLines` | the help that `Cli` declares |
-/

namespace PopulateQuery.CommandLine

inductive Format where
  | json
  | tree
  deriving DecidableEq, Repr, Inhabited

/-- The format of a name; case counts. -/
def Format.ofName? : String → Option Format
  | "json" => some .json
  | "tree" => some .tree
  | _ => none

inductive Action where
  /-- Say how it is used. -/
  | introduce
  | compile (value : String)
  | explain (value : String)
  | grammar
  deriving DecidableEq, Repr, Inhabited

structure Settings where
  format : Format := .json
  /-- The options file that is named on the command line. -/
  optionsFile : Option String := none
  verbose : Bool := false
  deriving DecidableEq, Repr, Inhabited

/-- What help is asked for: the program as a whole, or one of its commands. -/
inductive HelpTopic where
  | program
  | explain
  | grammar
  | help
  deriving DecidableEq, Repr, Inhabited

inductive Request where
  | run (settings : Settings) (action : Action)
  | version
  | help (topic : HelpTopic)
  deriving DecidableEq, Repr, Inhabited

inductive UsageFault where
  | unknownArgument (argument : String)
  | unexpectedValue (value : String)
  | missingValue (option : String)
  | repeatedOption (option : String)
  | unknownFormat (name : String)
  | unneededValue (option : String)
  deriving DecidableEq, Repr, Inhabited

def UsageFault.message : UsageFault → String
  | .unknownArgument argument => "unexpected argument '" ++ argument ++ "'"
  | .unexpectedValue value => "unexpected value '" ++ value ++ "'"
  | .missingValue option => "a value is required for '" ++ option ++ "'"
  | .repeatedOption option => "'" ++ option ++ "' cannot be used more than once"
  | .unknownFormat name => "unknown format '" ++ name ++ "': expected json or tree"
  | .unneededValue option => "'" ++ option ++ "' takes no value"

namespace Arguments

structure Taken where
  format : Option Format := none
  optionsFile : Option String := none
  verbose : Bool := false
  value : Option String := none
  deriving Repr, Inhabited

inductive ValueOption where
  | format
  | config
  deriving DecidableEq, Repr, Inhabited

def ValueOption.name : ValueOption → String
  | .format => "--format"
  | .config => "--config"

/-- Where an argument leaves the call. -/
inductive Step where
  /-- It is taken. -/
  | next (taken : Taken)
  /-- It is an option whose value has to follow. -/
  | awaiting (taken : Taken) (option : ValueOption)
  /-- It settles the call. -/
  | settled (request : Request)
  deriving Repr, Inhabited

namespace Taken

def settings (t : Taken) : Settings :=
  ⟨t.format.getD .json, t.optionsFile, t.verbose⟩

/-- The call when all arguments are taken and no command was among them. -/
def request (t : Taken) : Request :=
  .run t.settings (match t.value with
    | some value => .compile value
    | none => .introduce)

def setVerbose (t : Taken) : Except UsageFault Taken :=
  if t.verbose then .error (.repeatedOption "--verbose") else .ok { t with verbose := true }

def setOption (t : Taken) (option : ValueOption) (value : String) : Except UsageFault Taken :=
  match option with
  | .format =>
    match Format.ofName? value, t.format with
    | none, _ => .error (.unknownFormat value)
    | some _, some _ => .error (.repeatedOption option.name)
    | some format, none => .ok { t with format := some format }
  | .config =>
    match t.optionsFile with
    | some _ => .error (.repeatedOption option.name)
    | none => .ok { t with optionsFile := some value }

/-- Takes the value to compile, of which there is at most one. -/
def setValue (t : Taken) (value : String) : Except UsageFault Taken :=
  match t.value with
  | some _ => .error (.unexpectedValue value)
  | none => .ok { t with value := some value }

end Taken

/-- Takes short options that are written together. What follows one with a value is its value. -/
def takeShort (t : Taken) : List Char → Except UsageFault Step
  | [] => .ok (.next t)
  | 'v' :: rest => do
    let t ← t.setVerbose
    takeShort t rest
  | 'V' :: _ => .ok (.settled .version)
  | 'h' :: _ => .ok (.settled (.help .program))
  | 'f' :: rest => takeAttached .format rest
  | 'c' :: rest => takeAttached .config rest
  | c :: _ => .error (.unknownArgument ("-" ++ c.toString))
where
  /-- The value of an option that follows it in the same argument, perhaps after an equals sign. -/
  takeAttached (option : ValueOption) : List Char → Except UsageFault Step
    | [] => .ok (.awaiting t option)
    | '=' :: value => (t.setOption option (String.ofList value)).map .next
    | value => (t.setOption option (String.ofList value)).map .next

/-- Takes a long option without its dashes, and what follows an equals sign. -/
def takeLong (t : Taken) (name : String) (value : Option String) : Except UsageFault Step :=
  match name, value with
  | "format", none => .ok (.awaiting t .format)
  | "format", some value => (t.setOption .format value).map .next
  | "config", none => .ok (.awaiting t .config)
  | "config", some value => (t.setOption .config value).map .next
  | "verbose", none => t.setVerbose.map .next
  | "version", none => .ok (.settled .version)
  | "help", none => .ok (.settled (.help .program))
  | "verbose", some _ | "version", some _ | "help", some _ => .error (.unneededValue ("--" ++ name))
  | _, _ => .error (.unknownArgument ("--" ++ name))

/-- Takes an argument that is no command and not `--`. A lone dash is a value. -/
def take (t : Taken) (argument : String) : Except UsageFault Step :=
  match argument.toList with
  | '-' :: '-' :: option =>
    takeLong t (String.ofList (option.takeWhile (· != '=')))
      ((option.dropWhile (· != '=')).tail?.map String.ofList)
  | '-' :: c :: rest => takeShort t (c :: rest)
  | _ => (t.setValue argument).map .next

/-- Whether an argument cannot be the value of the option before it. -/
def isDashed (argument : String) : Bool :=
  match argument.toList with
  | '-' :: _ :: _ => true
  | _ => false

def readValues (t : Taken) : List String → Except UsageFault Taken
  | [] => .ok t
  | value :: rest => do
    let t ← t.setValue value
    readValues t rest

/-- Takes one more value behind a command, which takes at most `limit`. -/
def addValue (limit : Nat) (values : List String) (value : String) :
    Except UsageFault (List String) :=
  if values.length < limit then .ok (values ++ [value]) else .error (.unexpectedValue value)

/-- Reads what follows a command: at most `limit` values, and no option but the one for help, which
answers with nothing. -/
def readOperands (limit : Nat) (values : List String) :
    List String → Except UsageFault (Option (List String))
  | [] => .ok (some values)
  | "--" :: rest => (rest.foldlM (addValue limit) values).map some
  | "--help" :: _ => .ok none
  | argument :: rest =>
    match argument.toList with
    | '-' :: 'h' :: _ => .ok none
    | '-' :: _ :: _ => .error (.unknownArgument argument)
    | _ => do
      let values ← addValue limit values argument
      readOperands limit values rest

/-- Reads the rest of a call of `explain`, which takes one value. -/
def readExplain (settings : Settings) (rest : List String) : Except UsageFault Request := do
  match ← readOperands 1 [] rest with
  | none => pure (.help .explain)
  | some (value :: _) => pure (.run settings (.explain value))
  | some [] => throw (.missingValue "explain")

/-- Reads the rest of a call of `grammar`, which takes no value. -/
def readGrammar (settings : Settings) (rest : List String) : Except UsageFault Request := do
  match ← readOperands 0 [] rest with
  | none => pure (.help .grammar)
  | some _ => pure (.run settings .grammar)

/-- Reads the rest of a call of `help`, which may name one command. -/
def readHelp : List String → Except UsageFault Request
  | [] => .ok (.help .program)
  | ["explain"] => .ok (.help .explain)
  | ["grammar"] => .ok (.help .grammar)
  | ["help"] => .ok (.help .help)
  | argument :: _ => .error (.unknownArgument argument)

def readFrom (t : Taken) : List String → Except UsageFault Request
  | [] => .ok t.request
  | "explain" :: rest => readExplain t.settings rest
  | "grammar" :: rest => readGrammar t.settings rest
  | "help" :: rest => readHelp rest
  | "--" :: rest => (readValues t rest).map Taken.request
  | argument :: rest => do
    match ← take t argument with
    | .next t => readFrom t rest
    | .settled request => pure request
    | .awaiting t option =>
      match rest with
      | [] => throw (.missingValue option.name)
      | value :: rest =>
        if isDashed value then throw (.missingValue option.name)
        else do
          let t ← t.setOption option value
          readFrom t rest

def read (arguments : List String) : Except UsageFault Request :=
  readFrom {} arguments

end Arguments

/-! ## Help -/

def versionText : String := "mongoqs 0.3.0"

/-- The help on a topic. The page of the program shows which options file the environment names. -/
def helpLines (optionsFile : Option String) : HelpTopic → List String
  | .program =>
    ["Compile populate query parameters into document database descriptors",
      "",
      "Usage: mongoqs [OPTIONS] [VALUE] [COMMAND]",
      "",
      "Commands:",
      "  explain  Tokenize each expression and show the merged tree",
      "  grammar  Show the populate grammar reference",
      "  help     Print this message or the help of the given subcommand(s)",
      "",
      "Arguments:",
      "  [VALUE]  The populate value to compile",
      "",
      "Options:",
      "  -f, --format <FORMAT>  Output format [default: json] [possible values: json, tree]",
      "  -c, --config <CONFIG>  Path to a TOML options file [env: MONGOQS_CONFIG=" ++
        optionsFile.getD "" ++ "]",
      "  -v, --verbose          Verbose output",
      "  -h, --help             Print help",
      "  -V, --version          Print version",
      "",
      "EXAMPLES:",
      "    mongoqs 'createdBy.name,createdBy.email,likedBy'",
      "    mongoqs 'posts:attachments:link,posts:attachments:video' --format tree",
      "    mongoqs explain 'createdBy:friends.name'"]
  | .explain =>
    ["Tokenize each expression and show the merged tree",
      "",
      "Usage: mongoqs explain <VALUE>",
      "",
      "Arguments:",
      "  <VALUE>  The populate value to explain",
      "",
      "Options:",
      "  -h, --help  Print help"]
  | .grammar =>
    ["Show the populate grammar reference",
      "",
      "Usage: mongoqs grammar",
      "",
      "Options:",
      "  -h, --help  Print help"]
  | .help =>
    ["Print this message or the help of the given subcommand(s)",
      "",
      "Usage: mongoqs help [COMMAND]...",
      "",
      "Arguments:",
      "  [COMMAND]...  Print help for the subcommand(s)"]

end PopulateQuery.CommandLine
