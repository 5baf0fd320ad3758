import PopulateQuery.Expression
import PopulateQuery.Json

/-!
# Populate forests and descriptors

| here | there |
| --- | --- |
| `Forest` | `PopulateForest`: the map of one level is its first entry and the entries after it |
| `Node` | `PopulateNode`, with `child` (`child?`) and `select_string` (`selectText`) |
| `nodes`, `names`, `size`, `get?`, `depth` | `nodes`, `paths`, `len`, `get`, `depth` |
| `insert` | `insert`, by `insert_segments` |
| `ofExpressions` | `from_expressions`, without what it traces |
| `canonical`, `render` | `write_expressions`, and the display of a forest |
| `Descriptor` | `PopulateOptions`, with its JSON form (`toJson`, `ofJson?`) |
| `descriptors` | `to_options` |
-/

namespace PopulateQuery

/-!
## Populate forests

The relations to hydrate form an ordered forest with one tree per relation name at each level. A
forest is empty, or it is a first tree (a relation, its selected fields, the forest below it)
followed by that tree's later siblings. `Forest.insert` walks a chain down from the top, takes the
tree that is there or appends a new one, and appends the chain's field to the tree it ends at; so
names and fields stay in the order in which they were first seen.

A forest is read along paths: `Forest.at?` follows a list of names down from the top.
-/

/-- An ordered forest of relations to hydrate. -/
inductive Forest where
  | empty
  /-- The first tree, and its later siblings. -/
  | tree (relation : String) (select : List String) (children siblings : Forest)
  deriving DecidableEq, Repr, Inhabited

/-- One relation to hydrate: its selected fields in first-seen order (none means every field) and
the relations below it. -/
structure Node where
  relation : String
  select : List String
  children : Forest
  deriving DecidableEq, Repr, Inhabited

namespace Forest

def nodes : Forest → List Node
  | empty => []
  | tree relation select children siblings => ⟨relation, select, children⟩ :: siblings.nodes

def names : Forest → List String
  | empty => []
  | tree relation _ _ siblings => relation :: siblings.names

def size (f : Forest) : Nat :=
  f.names.length

def isEmpty : Forest → Bool
  | empty => true
  | tree .. => false

def get? : Forest → String → Option Node
  | empty, _ => none
  | tree relation select children siblings, name =>
    if relation = name then some ⟨relation, select, children⟩ else siblings.get? name

/-- The node that a path of names leads to; the empty path leads to none. -/
def at? : Forest → List String → Option Node
  | _, [] => none
  | f, [name] => f.get? name
  | f, name :: next :: path => (f.get? name).bind fun node => node.children.at? (next :: path)

/-- The number of relations on the longest way down. -/
def depth : Forest → Nat
  | empty => 0
  | tree _ _ children siblings => max (children.depth + 1) siblings.depth

/-- A selection with one more field, which goes last if it is new. -/
def addField (select : List String) : Option String → List String
  | none => select
  | some field => if field ∈ select then select else select ++ [field]

/-- The forest that holds one chain and nothing else. -/
def ofChain : Chain → Forest
  | .last relation field => tree relation field.toList empty empty
  | .step relation rest => tree relation [] (ofChain rest) empty

/-- Merges a chain into the forest, as `insert_segments` merges its segments. -/
def insert : Forest → Chain → Forest
  | empty, chain => ofChain chain
  | tree relation select children siblings, chain =>
    if chain.head = relation then
      match chain with
      | .last _ field => tree relation (addField select field) children siblings
      | .step _ rest => tree relation select (children.insert rest) siblings
    else tree relation select children (siblings.insert chain)

def insertAll (f : Forest) (expressions : List Expression) : Forest :=
  expressions.foldl (fun f e => f.insert e.chain) f

def ofExpressions (expressions : List Expression) : Forest :=
  insertAll empty expressions

@[simp] theorem names_ofChain (c : Chain) : (ofChain c).names = [c.head] := by
  cases c <;> rfl

@[simp] theorem depth_ofChain (c : Chain) : (ofChain c).depth = c.length := by
  induction c with
  | last => rfl
  | step _ _ ih => simp [ofChain, depth, Chain.length, ih]

/-- The nodes of the top level carry its names. -/
theorem map_relation_nodes (f : Forest) : f.nodes.map Node.relation = f.names := by
  induction f with
  | empty => rfl
  | tree _ _ _ _ _ ih => simp [nodes, names, ih]

@[simp] theorem insertAll_nil (f : Forest) : f.insertAll [] = f := rfl

@[simp] theorem insertAll_cons (f : Forest) (e : Expression) (es : List Expression) :
    f.insertAll (e :: es) = (f.insert e.chain).insertAll es := rfl

theorem insertAll_append (f : Forest) (es es' : List Expression) :
    f.insertAll (es ++ es') = (f.insertAll es).insertAll es' := by
  simp [insertAll]

end Forest

namespace Node

def child? (n : Node) (name : String) : Option Node :=
  n.children.get? name

/-- `select_string`: the selected fields with blanks between them, or nothing when every field is
wanted. -/
def selectText (n : Node) : Option String :=
  if n.select.isEmpty then none else some (" ".intercalate n.select)

end Node

/-!
## Canonical expressions

Every forest can be written down again as a list of chains (`Forest.canonical`), and so as a text
(`Forest.render`). The chains come in pre-order: the fields of a node, then the chains below it. A
node without fields and children is written as a bare chain; any other node needs none, because its
fields or its children imply it.
-/

namespace Forest

/-- The chains that write down one level of a tree: one per selected field, or a bare one for a node
with neither fields nor children. -/
def ownChains (relation : String) (select : List String) (children : Forest) : List Chain :=
  if select.isEmpty && children.isEmpty then [.last relation none]
  else select.map fun field => .last relation (some field)

/-- The chains of `write_expressions`, in pre-order. -/
def canonical : Forest → List Chain
  | empty => []
  | tree relation select children siblings =>
    ownChains relation select children ++ children.canonical.map (.step relation)
      ++ siblings.canonical

/-- The canonical text: the canonical chains with commas between them. -/
def render (f : Forest) : String :=
  ",".intercalate (f.canonical.map Chain.render)

end Forest

/-!
## Populate descriptors

What a document database is asked to hydrate: a list of descriptors, each with the path of a
relation, the fields to select as one text with blanks between them, and the descriptors below it.
An absent part is left out of the JSON form, while an empty list of descriptors is kept. Reading
accepts an object with any further members, or an array with the three parts in order of which the
last two may be missing (`Descriptor.listOfJson?`).
-/

/-- One relation to hydrate, as the database is told. -/
inductive Descriptor where
  | mk (path : String) (select : Option String) (populate : Option (List Descriptor))
  deriving Repr, Inhabited

namespace Descriptor

def path : Descriptor → String
  | mk path _ _ => path

def select : Descriptor → Option String
  | mk _ select _ => select

def populate : Descriptor → Option (List Descriptor)
  | mk _ _ populate => populate

/-! ### Equality -/

mutual

def decideEq : (a b : Descriptor) → Decidable (a = b)
  | mk path select none, mk path' select' none =>
    decidable_of_iff (path = path' ∧ select = select') (by simp)
  | mk path select (some ds), mk path' select' (some ds') =>
    match decideListEq ds ds' with
    | isTrue h => decidable_of_iff (path = path' ∧ select = select') (by simp [h])
    | isFalse h => isFalse (by simp [h])
  | mk _ _ none, mk _ _ (some _) => isFalse (by simp)
  | mk _ _ (some _), mk _ _ none => isFalse (by simp)

def decideListEq : (as bs : List Descriptor) → Decidable (as = bs)
  | [], [] => isTrue rfl
  | [], _ :: _ => isFalse (by simp)
  | _ :: _, [] => isFalse (by simp)
  | a :: as, b :: bs =>
    match decideEq a b, decideListEq as bs with
    | isTrue h, isTrue h' => isTrue (by rw [h, h'])
    | isFalse h, _ => isFalse (by simp [h])
    | _, isFalse h => isFalse (by simp [h])

end

instance : DecidableEq Descriptor := decideEq

/-! ### Writing -/

/-- The members of a descriptor's object, without the descriptors below it. -/
def ownMembers (path : String) (select : Option String) : List (String × Json) :=
  ("path", .string path) :: match select with
    | none => []
    | some fields => [("select", .string fields)]

mutual

def toJson : Descriptor → Json
  | mk path select none => .object (ownMembers path select)
  | mk path select (some ds) =>
    .object (ownMembers path select ++ [("populate", .array (listToJsonItems ds))])

def listToJsonItems : List Descriptor → List Json
  | [] => []
  | d :: ds => d.toJson :: listToJsonItems ds

end

def listToJson (ds : List Descriptor) : Json :=
  .array (listToJsonItems ds)

/-! ### Reading -/

/-- A text that may be missing: absent or null, or else it has to be a text. -/
def optionalText? : Option Json → Option (Option String)
  | none | some .null => some none
  | some (.string text) => some (some text)
  | some _ => none

/-- The text of a member, which has to be there. -/
def requiredText? : Option Json → Option String
  | some (.string text) => some text
  | _ => none

mutual

def ofJson? : Json → Option Descriptor
  | .object members => do
    let path ← requiredText? (members.lookup "path")
    let select ← optionalText? (members.lookup "select")
    let populate ← populateMember? members
    some (mk path select populate)
  | .array [.string path] => some (mk path none none)
  | .array [.string path, select] => do
    let select ← optionalText? (some select)
    some (mk path select none)
  | .array [.string path, select, populate] => do
    let select ← optionalText? (some select)
    let populate ← populatePart? populate
    some (mk path select populate)
  | _ => none

/-- Reads the descriptors below a descriptor out of the members of its object. -/
def populateMember? : List (String × Json) → Option (Option (List Descriptor))
  | [] => some none
  | (key, value) :: members =>
    if key = "populate" then populatePart? value else populateMember? members

/-- Reads a list of descriptors that may be null. -/
def populatePart? : Json → Option (Option (List Descriptor))
  | .null => some none
  | .array items => (itemsOfJson? items).map some
  | _ => none

def itemsOfJson? : List Json → Option (List Descriptor)
  | [] => some []
  | item :: items => do
    let d ← ofJson? item
    let ds ← itemsOfJson? items
    some (d :: ds)

end

def listOfJson? : Json → Option (List Descriptor)
  | .array items => itemsOfJson? items
  | _ => none

end Descriptor

namespace Forest

/-- `to_options`: a selection or a list below is left out when it is empty. -/
def descriptors : Forest → List Descriptor
  | empty => []
  | tree relation select children siblings =>
    .mk relation (Node.mk relation select children).selectText
      (if children.isEmpty then none else some children.descriptors) :: siblings.descriptors

end Forest

def Node.descriptor (n : Node) : Descriptor :=
  .mk n.relation n.selectText (if n.children.isEmpty then none else some n.children.descriptors)

/-- The descriptors of a forest are those of its top-level nodes. -/
theorem Forest.descriptors_eq_map (f : Forest) : f.descriptors = f.nodes.map Node.descriptor := by
  induction f with
  | empty => rfl
  | tree _ _ _ _ _ ih => simp [descriptors, nodes, ih, Node.descriptor]

end PopulateQuery
