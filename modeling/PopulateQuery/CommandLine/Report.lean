import PopulateQuery.Forest
import PopulateQuery.Logged

/-!
# What is shown

| here | there |
| --- | --- |
| `Transcript` | what a function of the program prints and traces before it returns or fails |
| `nodeLines`, `treeLines` | `print_node`, `print_tree` |
| `expressionList`, `explanationHead`, `explanationTail` | the parts of `explain_value` |
| `grammarLines` | `show_grammar` |
| `introductionLines` | what `main` prints without a value |
-/

namespace PopulateQuery

/-!
## Styles of text on a terminal

A styled text is the text between the code that starts its style and the code that ends every style.
A text that itself holds an end code gets its style back after each of them.
-/

namespace CommandLine

inductive Colour where
  | red
  | green
  | yellow
  | cyan
  | white
  deriving DecidableEq, Repr, Inhabited

/-- The number that stands for a colour in a style code. -/
def Colour.code : Colour → String
  | .red => "31"
  | .green => "32"
  | .yellow => "33"
  | .cyan => "36"
  | .white => "37"

structure Style where
  bold : Bool := false
  dimmed : Bool := false
  colour : Option Colour := none
  deriving DecidableEq, Repr, Inhabited

namespace Style

/-- The code that starts a style: weight first, colour last. -/
def start (s : Style) : String :=
  let codes := (if s.bold then ["1"] else []) ++ (if s.dimmed then ["2"] else [])
    ++ (s.colour.map Colour.code).toList
  "\x1b[" ++ ";".intercalate codes ++ "m"

def reset : String := "\x1b[0m"

/-- Puts `start` behind every end code in a text. -/
def resume (start : List Char) : List Char → List Char
  | '\x1b' :: '[' :: '0' :: 'm' :: rest => reset.toList ++ start ++ resume start rest
  | c :: rest => c :: resume start rest
  | [] => []

def apply (s : Style) (text : String) : String :=
  s.start ++ String.ofList (resume s.start.toList text.toList) ++ reset

end Style

abbrev Painter := Style → String → String

/-- Shows styles by their codes, or leaves all texts as they are. -/
def painter (colours : Bool) : Painter := fun style text =>
  if colours then style.apply text else text

def padTo (width : Nat) (text : String) : String :=
  text.pushn ' ' (width - text.length)

/-!
## Transcripts

A run of the program leaves lines on the screen, events in the log, and perhaps a failure. A
`Transcript` keeps all three: what was shown before a failure stays shown.
-/

inductive Failure where
  /-- The named options file cannot be loaded. -/
  | namedOptions (path : String) (error : QueryError)
  /-- The options at a usual place cannot be loaded. -/
  | usualOptions (error : QueryError)
  /-- The value is refused. -/
  | value (error : QueryError)
  deriving DecidableEq, Repr, Inhabited

namespace Failure

/-- The texts of an error, from what was tried down to the cause below it. -/
def causes (e : QueryError) : List String :=
  match e with
  | .io fault => [e.message, fault.message]
  | _ => [e.message]

/-- The wording of a failure: all that was tried, down to the last cause. -/
def message : Failure → String
  | namedOptions path e => ": ".intercalate (("Failed to load options from " ++ path) :: causes e)
  | usualOptions e => ": ".intercalate ("Failed to discover options" :: causes e)
  | value e => ": ".intercalate (causes e)

end Failure

structure Transcript (α : Type) where
  lines : List String
  events : List Event
  result : Except Failure α

namespace Transcript

variable {α β : Type}

protected def pure (a : α) : Transcript α :=
  ⟨[], [], .ok a⟩

protected def bind (x : Transcript α) (f : α → Transcript β) : Transcript β :=
  match x.result with
  | .ok a => ⟨x.lines ++ (f a).lines, x.events ++ (f a).events, (f a).result⟩
  | .error e => ⟨x.lines, x.events, .error e⟩

instance : Monad Transcript where
  pure := Transcript.pure
  bind := Transcript.bind

def say (lines : List String) : Transcript Unit :=
  ⟨lines, [], .ok ()⟩

/-- Takes over a logged result; `failure` says what a refusal means for the run. -/
def ofLogged (failure : QueryError → Failure) (x : Logged α) : Transcript α :=
  ⟨[], x.events, x.result.mapError failure⟩

theorem bind_of_ok {x : Transcript α} {a : α} (h : x.result = .ok a) (f : α → Transcript β) :
    x >>= f = ⟨x.lines ++ (f a).lines, x.events ++ (f a).events, (f a).result⟩ := by
  simp [bind, Transcript.bind, h]

theorem bind_of_error {x : Transcript α} {e : Failure} (h : x.result = .error e)
    (f : α → Transcript β) : x >>= f = ⟨x.lines, x.events, .error e⟩ := by
  simp [bind, Transcript.bind, h]

end Transcript

/-!
## What is shown of a forest

The printout of a forest has one line per node in pre-order, indented by two spaces a level
(`treeLines`). An explanation lists the expressions that were read with their segments, and ends
with the merged tree and its canonical text. All lines are free of styles when the painter is.
-/

/-! ### Styles -/

namespace Style

def title : Style := { bold := true, colour := some .cyan }

def heading : Style := { bold := true, colour := some .green }

def columnHeading : Style := { bold := true, colour := some .white }

def failure : Style := { bold := true, colour := some .red }

def label : Style := { dimmed := true }

def relation : Style := { colour := some .cyan }

def field : Style := { colour := some .yellow }

def text : Style := { colour := some .white }

end Style

/-! ### Trees -/

/-- The line of one node: its relation, and its fields in brackets if it selects any. -/
def nodeLine (paint : Painter) (level : Nat) (node : Node) : String :=
  "".pushn ' ' (2 * level) ++ "• " ++ paint .relation node.relation ++
    match node.selectText with
    | some fields => " [" ++ paint .field fields ++ "]"
    | none => ""

/-- `print_node`, of all nodes of a forest whose top level stands at `level`. -/
def nodeLines (paint : Painter) (level : Nat) : Forest → List String
  | .empty => []
  | .tree relation select children siblings =>
    nodeLine paint level ⟨relation, select, children⟩ ::
      (nodeLines paint (level + 1) children ++ nodeLines paint level siblings)

def treeLines (paint : Painter) (f : Forest) : List String :=
  if f.isEmpty then [paint .label "(nothing to populate)"] else nodeLines paint 1 f

/-! ### Explanations -/

def segmentLine (paint : Painter) : Segment → String
  | .relation name => "    " ++ paint .label "relation" ++ " " ++ paint .relation name
  | .leaf name field =>
    "    " ++ paint .label "relation" ++ " " ++ paint .relation name ++ " "
      ++ paint .label "select" ++ " " ++ paint .field field

/-- The lines of one expression: its text, then its segments. -/
def expressionLines (paint : Painter) (e : Expression) : List String :=
  ("  " ++ paint .text e.source) :: e.chain.segments.map (segmentLine paint)

/-- What `explain_value` shows before the value is read. -/
def explanationHead (paint : Painter) (value : String) : List String :=
  [paint .title "Populate Explanation", "", paint .label "Value:" ++ " " ++ paint .field value, ""]

/-- What `explain_value` shows of the expressions. -/
def expressionList (paint : Painter) (expressions : List Expression) : List String :=
  paint .heading "Expressions:" :: expressions.flatMap (expressionLines paint)

/-- What `explain_value` shows after the value is compiled. -/
def explanationTail (paint : Painter) (f : Forest) : List String :=
  ["", paint .heading "Merged Tree:"] ++ treeLines paint f
    ++ ["", paint .label "Canonical:" ++ " " ++ paint .text f.render]

/-! ### The grammar -/

/-- The marks of a populate value: each with its meaning and an example. -/
def grammarRows : List (String × String × String) :=
  [(",", "Separate expressions", "createdBy,likedBy"),
    (":", "Descend into a nested relation", "createdBy:friends"),
    (".", "Select a field (last segment only)", "createdBy.name")]

/-- A row of three columns, the first two of a fixed width. -/
def grammarRow (paint : Painter) (first second third : Style) :
    String × String × String → String
  | (symbol, meaning, sample) =>
    paint first (padTo 8 symbol) ++ " " ++ paint second (padTo 36 meaning) ++ " "
      ++ paint third sample

def grammarLines (paint : Painter) : List String :=
  [paint .title "Populate Grammar Reference", "",
    grammarRow paint .columnHeading .columnHeading .columnHeading ("Symbol", "Meaning", "Example"),
    paint .label ("".pushn '─' 70)]
    ++ grammarRows.map (grammarRow paint .title .text .label)

def introductionLines (paint : Painter) : List String :=
  [paint .title "mongoqs — populate compiler", "", "Usage: mongoqs <VALUE> [OPTIONS]", "",
    "Try: mongoqs --help"]

end CommandLine

end PopulateQuery
