import PopulateQuery.Logged
import PopulateQuery.Query
import PopulateQuery.Toml

/-!
# Options files

| here | there |
| --- | --- |
| `PathState` | what reading the file at a path gives, and whether anything exists there |
| `ofEntries`, `ofText` | how `ParserOptions` are read from a document |
| `load` | `load` |
| `usualFiles`, `discover` | `candidate_paths`, `discover` |

The library that reads the documents is an argument of `loadWith` and `discoverWith`, and nothing is
asked of it here. `tomlReader` is the one that the program runs.
-/

namespace PopulateQuery

/-!
## Files

Options are looked up by path, so all that matters of a file system is what stands at each path
(`FileSystem`). A `FileTree` is a file system given by its files: `FileTree.look` resolves a path
the way the operating system does, one part after the other, where a dot stays, two dots go up,
and nothing lies below a file.
-/

/-- What stands at a path. -/
inductive PathState where
  /-- Nothing, for a reason. -/
  | absent (reason : ReadFault)
  | directory
  | file (content : ByteArray)
  deriving Inhabited

namespace PathState

def isPresent : PathState → Bool
  | absent _ => false
  | directory | file _ => true

def text : PathState → Except ReadFault String
  | absent reason => .error reason
  | directory => .error .isADirectory
  | file content =>
    match String.fromUTF8? content with
    | some text => .ok text
    | none => .error .notUtf8

end PathState

abbrev FileSystem := String → PathState

/-! ### Joining paths -/

def isAbsolutePath (path : String) : Bool :=
  path.toList.head? == some '/'

/-- The path `name` below `directory`. -/
def joinPath (directory name : String) : String :=
  if isAbsolutePath name || directory.isEmpty then name
  else if directory.toList.getLast? == some '/' then directory ++ name
  else directory ++ "/" ++ name

/-! ### Trees of files -/

/-- A file system made of the files and directories it lists, each with the names on the way from
the root. A directory that only leads to an entry is there too. -/
structure FileTree where
  entries : List (List String × PathState) := []

namespace FileTree

/-- What stands at the end of a way down from the root. -/
def at? (t : FileTree) (way : List String) : Option PathState :=
  match t.entries.lookup way with
  | some state => some state
  | none =>
    if way.isEmpty || t.entries.any fun (w, _) => way.isPrefixOf w then some .directory else none

/-- Goes on from `way`, which leads to a directory or a file, along the parts of a path. -/
def walk (t : FileTree) (way : List String) : List String → PathState
  | [] => (t.at? way).getD (.absent .notFound)
  | part :: parts =>
    match t.at? way with
    | some .directory =>
      if part = "" || part = "." then t.walk way parts
      else if part = ".." then t.walk way.dropLast parts
      else if 255 < part.utf8ByteSize then .absent .nameTooLong
      else t.walk (way ++ [part]) parts
    | some (.file _) => .absent .notADirectory
    | some (.absent reason) => .absent reason
    | none => .absent .notFound

def parts (path : String) : List String :=
  (path.toList.splitOn '/').map String.ofList

/-- What stands at a path, as seen from the working directory. -/
def look (t : FileTree) (workingDirectory : List String) : FileSystem := fun path =>
  if path.toList.contains '\x00' then .absent .nameWithNul
  else if path.isEmpty then .absent .notFound
  else if 4096 ≤ path.utf8ByteSize then .absent .nameTooLong
  else t.walk (if isAbsolutePath path then [] else workingDirectory) (parts path)

end FileTree

/-!
## Where options come from

Options are read from one TOML file: a file that is named (`Options.load`), or else the first of
two usual places at which anything stands (`Options.discover`). Whatever stands at that place
decides: if it cannot be read, no other place is tried. A key that the file leaves out keeps its
default, and an unknown key does not count.
-/

/-- Why a text does not hold options. -/
inductive OptionsFault where
  /-- It is not a TOML document. -/
  | notToml
  /-- A key has a value of another kind than its option. -/
  | wrongKind (key : String)
  deriving DecidableEq, Repr, Inhabited

def OptionsFault.message : OptionsFault → String
  | .notToml => "TOML parse error: not a TOML document"
  | .wrongKind key => "TOML parse error: the value of '" ++ key ++ "' is of the wrong kind"

/-- What `load` asks of the library that reads documents: the entries of a text, if it is a
document, and the words for what is wrong with one. -/
structure DocumentReader where
  entries? : String → Option Toml.Entries
  wording : String → OptionsFault → String

/-- The reader of TOML that the program runs. It has the same words for every text. -/
def tomlReader : DocumentReader where
  entries? := Toml.read?
  wording _ fault := fault.message

namespace Options

/-! ### From a document -/

def text? : Toml.Value → Option String
  | .string text => some text
  | _ => none

def texts? : Toml.Value → Option (List String)
  | .array items => items.mapM text?
  | _ => none

def limit? : Toml.Value → Option (Option Nat)
  | .integer n => if 0 ≤ n then some (some n.toNat) else none
  | _ => none

/-- The option of a key: its default if the key is missing, and otherwise what `read` makes of the
value. -/
def field {α : Type} (entries : Toml.Entries) (key : String) (read : Toml.Value → Option α)
    (default : α) : Except OptionsFault α :=
  match entries.get? key with
  | none => .ok default
  | some value =>
    match read value with
    | some a => .ok a
    | none => .error (.wrongKind key)

def ofEntries (entries : Toml.Entries) : Except OptionsFault Options := do
  let defaults : Options := {}
  let populateKey ← field entries "populate_key" text? defaults.populateKey
  let blacklist ← field entries "blacklist" texts? defaults.blacklist
  let maxDepth ← field entries "max_depth" limit? defaults.maxDepth
  pure { populateKey, blacklist, maxDepth }

def ofText (reader : DocumentReader) (text : String) : Except OptionsFault Options :=
  match reader.entries? text with
  | none => .error .notToml
  | some entries => ofEntries entries

/-! ### From a file -/

/-- The options in the file at a path, by a reader of documents. -/
def loadWith (reader : DocumentReader) (files : FileSystem) (path : String) : Logged Options :=
  match (files path).text with
  | .error fault => Logged.refuse (.io fault)
  | .ok text =>
    match ofText reader text with
    | .error fault => Logged.refuse (.config (path ++ ": " ++ reader.wording text fault))
    | .ok options => do
      Logged.emit (.optionsLoaded path)
      pure options

/-- `load`: the options in the file at a path. -/
def load : FileSystem → String → Logged Options :=
  loadWith tomlReader

def localFile : String := "mongoqs.toml"

/-- The options file below a user's configuration directory. -/
def userFile (directory : String) : String :=
  joinPath (joinPath directory "mongoqs") "config.toml"

/-- `candidate_paths`: the places where options are looked for, in order. -/
def usualFiles (userDirectory : Option String) : List String :=
  localFile :: (userDirectory.map userFile).toList

/-- The options at the first usual place at which anything stands; the defaults if there is none. -/
def discoverWith (reader : DocumentReader) (files : FileSystem) (userDirectory : Option String) :
    Logged Options :=
  match (usualFiles userDirectory).find? fun path => (files path).isPresent with
  | some path => loadWith reader files path
  | none => pure {}

/-- `discover`: the options at the first usual place at which anything stands. -/
def discover : FileSystem → Option String → Logged Options :=
  discoverWith tomlReader

/-- The directory of a user's configuration: the one that is set, if its path is absolute, or else
`.config` in the home directory. -/
def userDirectory (configHome home : Option String) : Option String :=
  match configHome.filter isAbsolutePath with
  | some directory => some directory
  | none => (home.filter (!·.isEmpty)).map fun home => joinPath home ".config"

end Options

end PopulateQuery
