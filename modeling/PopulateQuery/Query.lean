import PopulateQuery.Expression
import PopulateQuery.Forest
import PopulateQuery.Logged

/-!
# Queries

| here | there |
| --- | --- |
| `Options` | `ParserOptions`; `forbids` is `is_blacklisted` |
| `Forest.merge` | `from_expressions` |
| `Forest.compile`, `Descriptor.compile` | `compile` and `compile_populate`, without options |
| `Options.compile` | `compile_populate` of a `QueryParser` |
| `FilterCompiler`, `equalityFilter` | `FilterCompiler`, `EqualityFilter` |
| `Query` | `QueryDescriptor` |
| `QueryCompiler` | `QueryParser`; `compile` is `parse_pairs` |
| `Fetcher`, `find` | `DocumentFetcher`, `find` |
-/

namespace PopulateQuery

/-!
## Options

What a query may ask for: the name of the parameter that holds populate values, the relations that
may never be hydrated, and the longest chain of relations. A field that nobody sets keeps its
default.
-/

structure Options where
  /-- The query parameter that holds populate values. -/
  populateKey : String := "populate"
  /-- Relations that may not be hydrated, at any level. -/
  blacklist : List String := []
  /-- The most relations one expression may chain. -/
  maxDepth : Option Nat := none
  deriving DecidableEq, Repr, Inhabited

namespace Options

def forbids (o : Options) (relation : String) : Bool :=
  o.blacklist.contains relation

/-- The depth limit, if a chain of `length` relations is beyond it. -/
def limitBelow? (o : Options) (length : Nat) : Option Nat :=
  o.maxDepth.filter (· < length)

end Options

/-!
## Compiling populate values

A populate value is read and merged into a forest. `Forest.compile` takes any value; under options,
`Options.compile` refuses a value with an expression that is too long or that names a forbidden
relation. All expressions are read before the first one is checked, and each is checked for its
length first.
-/

/-- `from_expressions`: merges expressions into a new forest, and says so. -/
def Forest.merge (expressions : List Expression) : Logged Forest := do
  let forest := Forest.ofExpressions expressions
  Logged.emit (.merged expressions.length forest.size)
  pure forest

def Forest.compile (value : String) : Logged Forest := do
  let expressions ← Expression.readAll value
  Forest.merge expressions

def Descriptor.compile (value : String) : Logged (List Descriptor) := do
  let forest ← Forest.compile value
  pure forest.descriptors

namespace Options

/-- Checks one expression against the options: first its length, then its relations from the top
down. -/
def check (o : Options) (e : Expression) : Except QueryError Unit :=
  match o.limitBelow? e.chain.length with
  | some limit => .error (.malformed e.source (.tooDeep e.chain.length limit))
  | none =>
    match e.chain.relations.find? o.forbids with
    | some relation => .error (.forbidden relation)
    | none => .ok ()

def checkAll (o : Options) : List Expression → Except QueryError Unit
  | [] => .ok ()
  | e :: rest => do
    o.check e
    o.checkAll rest

/-- `compile_populate`: all expressions are read before the first one is checked. -/
def compile (o : Options) (value : String) : Logged Forest := do
  let expressions ← Expression.readAll value
  o.checkAll expressions
  Forest.merge expressions

end Options

/-!
## Queries

A query arrives as parameters, each a key and a value. The values of the populate parameter are
joined and compiled to descriptors; every other parameter goes to a filter compiler, which answers
with a condition on a field, or passes it over, or refuses it. The filter of a query keeps one
condition a field, the last one given. A query that is refused is never fetched
(`QueryCompiler.find`).
-/

/-- Conditions on fields, sorted by field, one a field. -/
abbrev Filter := List (String × Json)

def Filter.set (filter : Filter) (field : String) (condition : Json) : Filter :=
  match filter with
  | [] => [(field, condition)]
  | (f, c) :: rest =>
    if field = f then (field, condition) :: rest
    else if field < f then (field, condition) :: (f, c) :: rest
    else (f, c) :: Filter.set rest field condition

def Filter.has (filter : Filter) (field : String) : Bool :=
  filter.any fun (f, _) => f == field

/-- Makes a field and a condition of a parameter, or passes it over, or refuses it. -/
abbrev FilterCompiler := String → String → Except QueryError (Option (String × Json))

/-- The field has to equal the text; a parameter without a name is passed over. -/
def equalityFilter : FilterCompiler := fun key value =>
  .ok (if key.isEmpty then none else some (key, .string value))

structure Query where
  filter : Filter := []
  populate : List Descriptor := []
  deriving Inhabited

/-- A query as a JSON object; an empty list of descriptors is left out. -/
def Query.toJson (q : Query) : Json :=
  .object (("filter", .object q.filter) ::
    if q.populate.isEmpty then [] else [("populate", Descriptor.listToJson q.populate)])

structure QueryCompiler where
  options : Options := {}
  filter : FilterCompiler := equalityFilter

namespace QueryCompiler

/-- Adds one condition to a filter, and says so when it takes the place of another. -/
def addCondition (filter : Filter) (field : String) (condition : Json) : Logged Filter := do
  if filter.has field then Logged.emit (.filterReplaced field)
  pure (filter.set field condition)

/-- Sorts parameters: populate values are collected in order, and conditions set in `filter`. -/
def sortParameters (c : QueryCompiler) (filter : Filter) :
    List (String × String) → Logged (Filter × List String)
  | [] => pure (filter, [])
  | (key, value) :: rest =>
    if key = c.options.populateKey then do
      let (filter, values) ← c.sortParameters filter rest
      pure (filter, value :: values)
    else do
      match ← c.filter key value with
      | none => c.sortParameters filter rest
      | some (field, condition) => do
        let filter ← addCondition filter field condition
        c.sortParameters filter rest

/-- `parse_pairs`: compiles parameters to a query. Populate values are compiled last, as one value
with commas between them. -/
def compile (c : QueryCompiler) (parameters : List (String × String)) : Logged Query := do
  let (filter, values) ← c.sortParameters [] parameters
  if values.isEmpty then pure ⟨filter, []⟩
  else do
    let forest ← c.options.compile (",".intercalate values)
    pure ⟨filter, forest.descriptors⟩

end QueryCompiler

abbrev Fetcher (α : Type) := String → Query → Except QueryError α

/-- The outcome of a search: the fetches that were made, and the logged result. -/
structure Search (α : Type) where
  fetches : List (String × Query)
  outcome : Logged α

/-- `find`: compiles parameters and fetches the documents of the query, unless it is refused. -/
def QueryCompiler.find {α : Type} (c : QueryCompiler) (fetch : Fetcher α) (collection : String)
    (parameters : List (String × String)) : Search α :=
  let compiled := c.compile parameters
  match compiled.result with
  | .error e => ⟨[], ⟨compiled.events, .error e⟩⟩
  | .ok query => ⟨[(collection, query)], ⟨compiled.events, fetch collection query⟩⟩

end PopulateQuery
