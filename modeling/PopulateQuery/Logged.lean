/-!
# Refusals, events and logged results

| here | there |
| --- | --- |
| `QueryError` | `QueryError`, built with one of the reasons `ExpressionFault` and `ReadFault` |
| `QueryError.message` | the texts that `QueryError` is displayed with |
| `Event` | what `from_expressions`, `parse_pairs` and `load` trace |
| `Logged` | `QueryResult`, together with the events on the way to it |
-/

namespace PopulateQuery

/-!
## Why a query is refused

Every refusal is kept as its cause. The wording is in one place, `QueryError.message`, so that two
causes can be told apart without comparing texts.
-/

/-- What is wrong with one populate expression. -/
inductive ExpressionFault where
  /-- Nothing but blanks. -/
  | emptyExpression
  /-- Something that is left over when all pieces are read. -/
  | leftOver
  /-- No relation name at a segment; segments count from one. -/
  | emptyRelation (position : Nat)
  /-- A relation or field name with a blank inside. -/
  | blankInside (name : String)
  /-- A dot with no field after it. -/
  | emptyField (relation : String)
  /-- More relations than the depth limit allows. -/
  | tooDeep (length limit : Nat)
  /-- A reason that a caller of the library states in its own words. -/
  | stated (reason : String)
  deriving DecidableEq, Repr, Inhabited

def ExpressionFault.message : ExpressionFault → String
  | .emptyExpression => "empty expression"
  | .leftOver => "parse failed"
  | .emptyRelation position => "empty relation name at segment " ++ toString position
  | .blankInside name => "whitespace inside name '" ++ name ++ "'"
  | .emptyField relation => "empty field name after '" ++ relation ++ ".'"
  | .tooDeep length limit =>
    "nests " ++ toString length ++ " relations, limit is " ++ toString limit
  | .stated reason => reason

/-- Why a file could not be read as text. -/
inductive ReadFault where
  | notFound
  | notADirectory
  | isADirectory
  | nameTooLong
  /-- The name holds the character U+0000. -/
  | nameWithNul
  | notUtf8
  /-- A reason in the words of the operating system. -/
  | stated (reason : String)
  deriving DecidableEq, Repr, Inhabited

/-- The wording of a read fault, with the error number where the system has one. -/
def ReadFault.message : ReadFault → String
  | .notFound => "No such file or directory (os error 2)"
  | .notADirectory => "Not a directory (os error 20)"
  | .isADirectory => "Is a directory (os error 21)"
  | .nameTooLong => "File name too long (os error 36)"
  | .nameWithNul => "file name contained an unexpected NUL byte"
  | .notUtf8 => "stream did not contain valid UTF-8"
  | .stated reason => reason

/-- Why a query, or the options for it, is refused. -/
inductive QueryError where
  /-- An expression that cannot be read, or that is nested too deep. -/
  | malformed (expression : String) (fault : ExpressionFault)
  /-- A segment with a field before the end of its expression. -/
  | misplacedField (expression segment : String)
  /-- A relation that the options forbid. -/
  | forbidden (relation : String)
  /-- An options file that does not hold options. -/
  | config (problem : String)
  /-- A filter that the filter compiler refuses. -/
  | filter (problem : String)
  /-- A file that cannot be read. -/
  | io (fault : ReadFault)
  deriving DecidableEq, Repr, Inhabited

def QueryError.message : QueryError → String
  | .malformed expression fault =>
    "Malformed populate expression '" ++ expression ++ "': " ++ fault.message
  | .misplacedField expression segment =>
    "Field selection '" ++ segment ++ "' must be the last segment of '" ++ expression ++ "'"
  | .forbidden relation => "Populating '" ++ relation ++ "' is not allowed"
  | .config problem => "Configuration error: " ++ problem
  | .filter problem => "Filter error: " ++ problem
  | .io fault => "IO error: " ++ fault.message

/-!
## Events and logged results

What happens on the way to an answer is part of the answer: a `Logged` result carries the events in
the order in which they took place, also when it is a refusal.
-/

inductive Level where
  | error
  | warn
  | info
  | debug
  | trace
  deriving DecidableEq, Repr, Inhabited

namespace Level

def name : Level → String
  | error => "ERROR"
  | warn => "WARN"
  | info => "INFO"
  | debug => "DEBUG"
  | trace => "TRACE"

/-- The position of a level, from the gravest to the most talkative. -/
def verbosity : Level → Nat
  | error => 1
  | warn => 2
  | info => 3
  | debug => 4
  | trace => 5

end Level

/-- Something that is worth a log line. -/
inductive Event where
  /-- A list of expressions became a forest. -/
  | merged (expressions trees : Nat)
  /-- A filter took the place of an earlier one on the same field. -/
  | filterReplaced (field : String)
  /-- An options file was read. -/
  | optionsLoaded (path : String)
  deriving DecidableEq, Repr, Inhabited

namespace Event

def level : Event → Level
  | merged .. => .debug
  | filterReplaced _ => .warn
  | optionsLoaded _ => .debug

/-- The part of the program that an event belongs to. -/
def target : Event → String
  | merged .. => "mongoqs::populate"
  | filterReplaced _ => "mongoqs::engine"
  | optionsLoaded _ => "mongoqs::config"

def message : Event → String
  | merged expressions trees =>
    "Merged " ++ toString expressions ++ " populate expression(s) into " ++ toString trees
      ++ " top-level node(s)"
  | filterReplaced field => "Filter on '" ++ field ++ "' given more than once, keeping the last"
  | optionsLoaded path => "Loaded parser options from " ++ path

def line (e : Event) : String :=
  e.level.name ++ " " ++ e.target ++ ": " ++ e.message

end Event

/-- A result or a refusal, with the events on the way to it. -/
structure Logged (α : Type) where
  events : List Event
  result : Except QueryError α

namespace Logged

variable {α β : Type}

protected def pure (a : α) : Logged α :=
  ⟨[], .ok a⟩

/-- Goes on from a result; a refusal ends the run and keeps the events so far. -/
protected def bind (x : Logged α) (f : α → Logged β) : Logged β :=
  match x.result with
  | .ok a => ⟨x.events ++ (f a).events, (f a).result⟩
  | .error e => ⟨x.events, .error e⟩

instance : Monad Logged where
  pure := Logged.pure
  bind := Logged.bind

def ofExcept (r : Except QueryError α) : Logged α :=
  ⟨[], r⟩

instance : MonadLift (Except QueryError) Logged where
  monadLift := ofExcept

def refuse (e : QueryError) : Logged α :=
  ⟨[], .error e⟩

def emit (e : Event) : Logged Unit :=
  ⟨[e], .ok ()⟩

@[simp] theorem result_pure (a : α) : (pure a : Logged α).result = .ok a := rfl

theorem bind_of_ok {x : Logged α} {a : α} (h : x.result = .ok a) (f : α → Logged β) :
    x >>= f = ⟨x.events ++ (f a).events, (f a).result⟩ := by
  simp [bind, Logged.bind, h]

theorem bind_of_error {x : Logged α} {e : QueryError} (h : x.result = .error e)
    (f : α → Logged β) : x >>= f = ⟨x.events, .error e⟩ := by
  simp [bind, Logged.bind, h]

end Logged

end PopulateQuery
