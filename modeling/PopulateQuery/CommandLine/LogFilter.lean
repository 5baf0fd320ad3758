import PopulateQuery.Logged
import PopulateQuery.Pattern
import PopulateQuery.Text

/-!
# Log filters

What a call shows of its events: `LogFilter.ofText` reads the text of a filter, as `init_tracing`
has it read, `LogFilter.shows` says which events it shows, and `logLine` is how they are shown.
-/

namespace PopulateQuery

/-!
## Values of fields

A filter may ask for the value of a field: a number, or a pattern that the value has to match.
Whether a value matches never matters here, only what is wrong with it (`FieldValue.fault?`).
-/

namespace CommandLine.FieldValue

open Text Text.Reader

/-- Digits with a point in them or beside them, and an exponent that may be missing. -/
def decimal : Reader Unit := do
  let whole ← takeWhile Char.isDigit
  let fraction ← optional? (do char '.'; takeWhile Char.isDigit)
  guard (!(whole ++ fraction.getD []).isEmpty)
  discard (optional? (do
    char 'e' <|> char 'E'
    discard (optional? (char '+' <|> char '-'))
    takeSome Char.isDigit))

/-- The words for what is not a finite number, in any case. -/
def unending : Reader Unit := do
  let word ← takeSome Char.isAlpha
  guard (["inf", "infinity", "nan"].contains (String.ofList word).toLower)

/-- A number with a plus in front. Every other number is a pattern, too. -/
def plusNumber : Reader Unit := do
  char '+'
  unending <|> decimal
  atEnd

def fault? (cs : List Char) : Option Pattern.Fault :=
  if (plusNumber cs).isSome then none else Pattern.fault? cs

end CommandLine.FieldValue

/-!
## Directives of a log filter

A directive is a level, a target, or a target with a level: `warn`, `mongoqs`, `mongoqs=debug`. A
target may be followed, or replaced, by a scope in brackets: the name of a span, a field in braces,
or both, as in `mongoqs[{message}]=debug`. Without a level everything is shown.

Blanks at the ends of a directive do not count when its delimiters are looked for. The parts between
the delimiters are cut from the text with its blanks, though, at the same byte offsets, so that
blanks in front move every part to the front, and those at the end belong to the last part.
-/

namespace CommandLine

open Text

/-- What a directive is limited to beside its target. -/
inductive Scope where
  /-- To nothing. -/
  | unlimited
  /-- To what has a field of this name. -/
  | field (name : String)
  /-- To spans, by their name or by the value of a field. -/
  | spans
  deriving DecidableEq, Repr, Inhabited

/-- Shows what its target and its scope allow, up to a verbosity. -/
structure Directive where
  target : Option String
  scope : Scope := .unlimited
  verbosity : Nat := Level.trace.verbosity
  deriving DecidableEq, Repr, Inhabited

inductive DirectiveFault where
  | unreadable
  | unknownLevel
  | unusableValue (fault : Pattern.Fault)
  deriving DecidableEq, Repr, Inhabited

def DirectiveFault.message : DirectiveFault → String
  | .unreadable => "invalid filter directive"
  | .unknownLevel => "error parsing level filter: expected one of \"off\", \"error\", \"warn\", "
    ++ "\"info\", \"debug\", \"trace\", or a number 0-5"
  | .unusableValue fault => "invalid field filter: " ++ fault.message

namespace Directive

/-! ### Levels -/

/-- The number that digits write, with or without a plus in front. -/
def number? (text : List Char) : Option Nat :=
  let digits := match text with
    | '+' :: digits => digits
    | digits => digits
  if digits.isEmpty || !digits.all Char.isDigit then none else some (digitsValue 10 digits)

/-- The verbosity that a level's name or number allows; case does not count. -/
def verbosity? (level : String) : Option Nat :=
  match number? level.toList with
  | some n => if n ≤ Level.trace.verbosity then some n else none
  | none =>
    [("off", 0), ("error", 1), ("warn", 2), ("info", 3), ("debug", 4), ("trace", 5)].lookup
      level.toLower

/-! ### Parts -/

def part (text : List Char) (start stop : Nat) : Except DirectiveFault String :=
  match slice? text start stop with
  | some cs => .ok (String.ofList cs)
  | none => .error .unreadable

/-- Reads the level that starts at a byte offset; an empty one shows everything. -/
def readLevel (text : List Char) (start : Nat) : Except DirectiveFault Nat := do
  let level ← part text start (byteLength text)
  if level.isEmpty then pure Level.trace.verbosity
  else
    match verbosity? level with
    | some verbosity => pure verbosity
    | none => throw .unknownLevel

/-- Reads what stands between braces: the name of a field, and perhaps the value that it has to
have. -/
def readField (text : String) : Except DirectiveFault Scope :=
  match text.toList.splitOn '=' with
  | _ :: value :: _ =>
    match FieldValue.fault? value with
    | some fault => .error (.unusableValue fault)
    | none => .ok .spans
  | _ => if text.isEmpty then .error .unreadable else .ok (.field text)

/-- Reads a scope that starts at a byte offset, behind its opening bracket. Returns also the offset
behind its closing bracket and what follows there. -/
def readScope (text : List Char) (start : Nat) (rest : List Char) :
    Except DirectiveFault (Scope × Nat × List Char) :=
  let (span, rest) := rest.span fun c => c != ']' && c != '\x7b'
  let spanEnd := start + byteLength span
  match rest with
  | ']' :: rest => pure (.spans, spanEnd + 1, rest)
  | '\x7b' :: rest =>
    let (field, rest) := rest.span (· != '\x7d')
    let fieldEnd := spanEnd + 1 + byteLength field
    match rest with
    | '\x7d' :: rest => do
      let scope ← readField (← part text (spanEnd + 1) fieldEnd)
      match rest with
      | ']' :: rest => pure (if span.isEmpty then scope else .spans, fieldEnd + 2, rest)
      | _ => throw .unreadable
    | _ => throw .unreadable
  | _ => throw .unreadable

def readScoped (text : List Char) (target : Option String) (start : Nat) (rest : List Char) :
    Except DirectiveFault Directive := do
  let (scope, offset, rest) ← readScope text start rest
  match rest with
  | [] => pure { target, scope }
  | '=' :: _ => pure { target, scope, verbosity := ← readLevel text (offset + 1) }
  | _ => throw .unreadable

/-! ### Directives -/

def startsTarget (c : Char) : Bool :=
  isAlphanumeric c || c == '-' || c == ':' || c == '_'

def read (text : String) : Except DirectiveFault Directive :=
  let cs := text.toList
  let (target, rest) := (trim cs).span fun c => c != '=' && c != '['
  let targetEnd := byteLength target
  match target, rest with
  | [], '[' :: rest => readScoped cs none 1 rest
  | [], _ => throw .unreadable
  | first :: _, rest =>
    if !startsTarget first then throw .unreadable
    else
      match rest with
      | [] =>
        match verbosity? text with
        | some verbosity => pure { target := none, verbosity }
        | none => pure { target := some text }
      | '[' :: rest => do
        let target ← part cs 0 targetEnd
        readScoped cs (some target) (targetEnd + 1) rest
      | _ :: _ => do
        let target ← part cs 0 targetEnd
        pure { target := some target, verbosity := ← readLevel cs (targetEnd + 1) }

/-! ### Events -/

def messageField : String := "message"

/-- Whether a directive has a say about an event. -/
def speaksFor (d : Directive) (e : Event) : Bool :=
  d.target.all (·.isPrefixOf e.target) &&
    match d.scope with
    | .unlimited => true
    | .field name => name == messageField
    | .spans => false

/-- How much a directive says about what it speaks for: the length of its target counts first, a
missing target least, and then whether it names a field. -/
def precision (d : Directive) : Nat :=
  let field := match d.scope with
    | .field _ => 1
    | _ => 0
  2 * ((d.target.map (·.utf8ByteSize + 1)).getD 0) + field

end Directive

end CommandLine

/-!
## Which events are shown

A log filter is a list of directives with commas between them: `warn,mongoqs::config=debug`. A
directive speaks for every target that starts with its own. Of those that speak for an event the
most precise decides, and of two equally precise ones the later. A filter without directives shows
errors only.
-/

namespace CommandLine

/-- The directives of a filter, and the remarks on those that were passed over. -/
structure LogFilter where
  directives : List Directive := []
  remarks : List String := []
  deriving Inhabited

namespace LogFilter

def addText (f : LogFilter) (text : String) : LogFilter :=
  match Directive.read text with
  | .ok directive => { f with directives := f.directives ++ [directive] }
  | .error fault =>
    { f with remarks := f.remarks ++ ["ignoring \u0060" ++ text ++ "\u0060: " ++ fault.message] }

/-- Reads a filter; empty directives do not count. -/
def ofText (text : String) : LogFilter :=
  ((text.toList.splitOn ',').map String.ofList).filter (!·.isEmpty) |>.foldl addText {}

/-- The filter that shows all events of the program down to debugging. -/
def verbose : LogFilter :=
  ⟨[{ target := some "mongoqs", verbosity := Level.debug.verbosity }], []⟩

/-- The directive that decides on an event: the most precise that speaks for it, the last of
those. -/
def deciding? (f : LogFilter) (e : Event) : Option Directive :=
  (f.directives.filter (·.speaksFor e)).foldl
    (fun best d =>
      match best with
      | some b => if b.precision ≤ d.precision then some d else some b
      | none => some d) none

def shows (f : LogFilter) (e : Event) : Bool :=
  if f.directives.isEmpty then e.level == .error
  else match f.deciding? e with
    | some d => e.level.verbosity ≤ d.verbosity
    | none => false

end LogFilter

/-!
## Log lines on a terminal

A message may hold a name that somebody else chose, such as that of a file. Control characters that
could steer the terminal are shown by their codes, all other characters as they are.
-/

/-- The control characters of ASCII that could steer a terminal: bell, backspace, form feed, escape
and delete. -/
def steeringControls : List Char :=
  ['\x07', '\x08', '\x0c', '\x1b', '\x7f']

/-- The digits of a number up to 255 in base sixteen, two of them. -/
def twoHexDigits (n : Nat) : String :=
  String.ofList [Nat.digitChar (n / 16), Nat.digitChar (n % 16)]

def visibleChar (c : Char) : String :=
  if steeringControls.contains c then "\\x" ++ twoHexDigits c.toNat
  else if 0x80 ≤ c.toNat && c.toNat ≤ 0x9F then "\\u\x7b" ++ twoHexDigits c.toNat ++ "\x7d"
  else c.toString

def visibleText (message : String) : String :=
  "".intercalate (message.toList.map visibleChar)

def logLine (e : Event) : String :=
  e.level.name ++ " " ++ e.target ++ ": " ++ visibleText e.message

end CommandLine

end PopulateQuery
