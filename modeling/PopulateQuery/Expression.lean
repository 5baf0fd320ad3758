import PopulateQuery.Logged
import PopulateQuery.Text

/-!
# Populate expressions

| here | there |
| --- | --- |
| `Segment` | `Segment`, with `relation` (`target`), `field` and its display (`render`) |
| `Chain` | the segments of a `PathExpression`, which are never empty and end in the only leaf |
| `Chain.segments`, `head`, `length`, `render` | `segments`, `head`, `len`, and the display of a `PathExpression` |
| `Expression` | `PathExpression` with its `source` |
| `Scan.piece`, `Scan.pieces` | `parse_raw_segment`, `parse_raw_segments` |
| `Piece.fault?`, `chainOfPieces` | the loop over raw segments in `tokenize` |
| `Expression.read` | `tokenize` |
| `Expression.readAll` | `split_expressions` |
-/

namespace PopulateQuery

/-!
## Relation chains

A populate expression names a chain of relations, each reached from the one before it, and may
select one field of the last relation: `createdBy:friends.name`. The type `Chain` holds exactly
such chains: it is never empty and has no place for a field before its end. `Chain.segments` lists
a chain as the segments it is written with.
-/

/-- One step of a written expression. -/
inductive Segment where
  /-- Go to the relation and on from there. -/
  | relation (name : String)
  /-- Go to the relation and select one field there. -/
  | leaf (relation field : String)
  deriving DecidableEq, Repr, Inhabited

namespace Segment

def target : Segment → String
  | .relation name => name
  | .leaf name _ => name

def field : Segment → Option String
  | .relation _ => none
  | .leaf _ field => some field

/-- The segment as it is written: the relation, and after a dot the field. -/
def render : Segment → String
  | .relation name => name
  | .leaf name field => name ++ "." ++ field

/-- Segments as they are written, with a colon between neighbours. -/
def renderAll (segments : List Segment) : String :=
  ":".intercalate (segments.map render)

end Segment

/-- A non-empty chain of relations, with an optional field of the last one. -/
inductive Chain where
  /-- The last relation and the field selected there. -/
  | last (relation : String) (field : Option String)
  /-- A relation and the chain that goes on from it. -/
  | step (relation : String) (rest : Chain)
  deriving DecidableEq, Repr, Inhabited

namespace Chain

def head : Chain → String
  | last relation _ => relation
  | step relation _ => relation

/-- The relations in the order they are gone through. -/
def relations : Chain → List String
  | last relation _ => [relation]
  | step relation rest => relation :: rest.relations

def field : Chain → Option String
  | last _ field => field
  | step _ rest => rest.field

def length : Chain → Nat
  | last _ _ => 1
  | step _ rest => rest.length + 1

def segments : Chain → List Segment
  | last relation none => [.relation relation]
  | last relation (some field) => [.leaf relation field]
  | step relation rest => .relation relation :: rest.segments

def render (c : Chain) : String :=
  Segment.renderAll c.segments

@[simp] theorem length_segments (c : Chain) : c.segments.length = c.length := by
  induction c with
  | last _ f => cases f <;> rfl
  | step _ _ ih => simp [segments, length, ih]

end Chain

/-- A populate expression together with the trimmed text it was read from. -/
structure Expression where
  source : String
  chain : Chain
  deriving DecidableEq, Repr, Inhabited

/-!
## Reading expressions

A populate value is a list of expressions with commas between them (`Expression.readAll`). One
expression is a list of pieces with colons between them, each a relation and after a dot a field
(`Scan.pieces`). The scan takes any text: names may be empty, have blanks around them or inside, and
every piece may have a field. What it takes is checked afterwards: blanks around a name do not
count, a blank inside one is a fault, so is an empty name, and only the last piece may have a field.
The leftmost piece with a fault decides the error (`chainOfPieces`).
-/

/-! ### Scanning -/

namespace Scan

open Text Text.Reader

/-- A piece as it stands in the text: its name, and what follows its first dot. -/
abbrev RawPiece := List Char × Option (List Char)

/-- Takes one piece, up to the next colon. Both parts may be empty. -/
def piece : Reader RawPiece := do
  let name ← takeWhile fun c => c != ':' && c != '.'
  let field ← optional? do
    char '.'
    takeWhile (· != ':')
  pure (name, field)

/-- Takes all pieces of an expression; nothing may be left over. -/
def pieces : Reader (List RawPiece) := do
  let pieces ← separated (char ':') piece
  atEnd
  pure pieces

end Scan

/-! ### Checking -/

/-- What stands between two colons: a name, and the field after the first dot if there is a dot.
Both are trimmed, and either may still be empty. -/
structure Piece where
  name : String
  field : Option String
  deriving DecidableEq, Repr, Inhabited

namespace Piece

def ofRaw (p : Scan.RawPiece) : Piece :=
  ⟨String.ofList (Text.trim p.1), p.2.map fun field => String.ofList (Text.trim field)⟩

/-- The first fault of the piece at a position, wherever it stands in its expression: an empty name,
a blank inside the name, a blank inside the field, an empty field. -/
def fault? (position : Nat) (p : Piece) : Option ExpressionFault :=
  if p.name.isEmpty then some (.emptyRelation position)
  else if Text.hasBlank p.name then some (.blankInside p.name)
  else match p.field with
    | none => none
    | some field =>
      if Text.hasBlank field then some (.blankInside field)
      else if field.isEmpty then some (.emptyField p.name)
      else none

end Piece

/-- The chain that the pieces of `source` stand for, `first` being at the given position. -/
def chainOfPieces (source : String) (position : Nat) (first : Piece) :
    List Piece → Except QueryError Chain
  | [] =>
    match first.fault? position with
    | some fault => .error (.malformed source fault)
    | none => .ok (.last first.name first.field)
  | next :: rest =>
    match first.fault? position with
    | some fault => .error (.malformed source fault)
    | none =>
      match first.field with
      | some field => .error (.misplacedField source (Segment.leaf first.name field).render)
      | none => (chainOfPieces source (position + 1) next rest).map (.step first.name)

namespace Expression

/-- `tokenize`: reads one expression. A comma has no meaning here and may be part of a name. -/
def read (text : String) : Except QueryError Expression :=
  let trimmed := Text.trim text.toList
  let source := String.ofList trimmed
  if trimmed.isEmpty then .error (.malformed source .emptyExpression)
  else match Scan.pieces trimmed with
    | some (first :: rest, _) =>
      (chainOfPieces source 1 (Piece.ofRaw first) (rest.map Piece.ofRaw)).map (Expression.mk source)
    | _ => .error (.malformed source .leftOver)

/-- `split_expressions`: reads a whole value, cut at its commas. The first expression with a fault
refuses it all. -/
def readAll (value : String) : Except QueryError (List Expression) :=
  (value.toList.splitOn ',').mapM fun piece => read (String.ofList piece)

end Expression

end PopulateQuery
