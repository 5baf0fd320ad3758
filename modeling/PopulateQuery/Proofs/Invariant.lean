import PopulateQuery.Proofs.Descriptor.Restoring
import PopulateQuery.Proofs.Forest.Distinct
import PopulateQuery.Proofs.RoundTrip

/-!
# What every forest and every descriptor list keeps up

The invariant of the levels of a forest, of the maps that hold them, and of the descriptor lists made of them
(`representation_invariant`).
-/

namespace PopulateQuery

/-!
## The levels of a forest

The top level of a forest and, below each node that has children, theirs are forests of their own
(`levels`). What merging keeps up holds on all of them: no name stands twice on a level, looking a name
up gives the one node of this name, and all names and selected fields are those of written expressions
(`Reachable.tidy`).
-/

namespace Forest

/-- The forest itself, and what is below each of its nodes, at any depth, where there is something. -/
def levels (f : Forest) : List Forest :=
  f :: (f.preorder.map Node.children).filter fun l => !l.isEmpty

/-- What holds on each level of a reachable forest. -/
structure Tidy (l : Forest) : Prop where
  /-- No name stands twice on the level. -/
  nodup_names : l.names.Nodup
  /-- The names that the nodes are found under are their relations. -/
  names_eq : l.names = l.nodes.map Node.relation
  /-- Looking a name up gives the one node of this name. -/
  get?_iff : ∀ name n, l.get? name = some n ↔ n ∈ l.nodes ∧ n.relation = name
  /-- A relation is not empty and has no colon, no dot and no blank. -/
  isName : ∀ n ∈ l.nodes, IsName n.relation
  /-- No field is selected twice. -/
  nodup_select : ∀ n ∈ l.nodes, n.select.Nodup
  /-- A field is not empty and has no colon and no blank. -/
  isField : ∀ n ∈ l.nodes, ∀ field ∈ n.select, IsField field

/-! ### Nodes of a level -/

theorem nodes_subset_preorder (f : Forest) : f.nodes ⊆ f.preorder := by
  induction f with
  | empty => exact List.Subset.refl _
  | tree relation select children siblings _ ih =>
    refine List.cons_subset_cons _ (fun n hn => ?_)
    exact List.mem_append_right _ (ih hn)

theorem children_preorder_subset {f : Forest} {n : Node} (h : n ∈ f.preorder) :
    n.children.preorder ⊆ f.preorder := by
  induction f with
  | empty => cases h
  | tree relation select children siblings ihc ihs =>
    rw [preorder, List.mem_cons, List.mem_append] at h
    intro m hm
    rw [preorder, List.mem_cons, List.mem_append]
    rcases h with rfl | h | h
    · exact Or.inr (Or.inl hm)
    · exact Or.inr (Or.inl (ihc h hm))
    · exact Or.inr (Or.inr (ihs h hm))

theorem mem_levels_iff {f l : Forest} :
    l ∈ f.levels ↔ l = f ∨ ∃ n ∈ f.preorder, n.children = l ∧ l.isEmpty = false := by
  simp only [levels, List.mem_cons, List.mem_filter, List.mem_map, Bool.not_eq_true']
  grind

/-- What holds of a level's nodes: the forest's nodes have it. -/
theorem preorder_subset_of_mem_levels {f l : Forest} (h : l ∈ f.levels) : l.preorder ⊆ f.preorder := by
  rcases mem_levels_iff.1 h with rfl | ⟨n, hn, rfl, -⟩
  · exact List.Subset.refl _
  · exact children_preorder_subset hn

theorem Distinct.of_mem_levels {f l : Forest} (h : f.Distinct) (hl : l ∈ f.levels) : l.Distinct := by
  rcases mem_levels_iff.1 hl with rfl | ⟨n, hn, rfl, -⟩
  · exact h
  · exact h.children hn

/-! ### Tidy levels -/

theorem get?_eq_some_iff {f : Forest} (h : f.names.Nodup) {name : String} {n : Node} :
    f.get? name = some n ↔ n ∈ f.nodes ∧ n.relation = name := by
  induction f with
  | empty => simp [get?, nodes]
  | tree relation select children siblings _ ih =>
    obtain ⟨hnew, hrest⟩ := List.nodup_cons.1 h
    rw [get?, nodes, List.mem_cons]
    by_cases hname : relation = name
    · subst hname
      have hlater : ∀ m ∈ siblings.nodes, m.relation ≠ relation := by
        intro m hm e
        rw [← map_relation_nodes] at hnew
        exact hnew (List.mem_map.2 ⟨m, hm, e⟩)
      grind
    · rw [if_neg hname, ih hrest]
      grind

theorem tidy {f : Forest} (h : f.Distinct) (heach : f.Each IsName IsField) : f.Tidy where
  nodup_names := h.nodup_names
  names_eq := (map_relation_nodes f).symm
  get?_iff := fun _ _ => get?_eq_some_iff h.nodup_names
  isName := fun n hn => (heach n (nodes_subset_preorder f hn)).1
  nodup_select := fun n hn => h.nodup_select n (nodes_subset_preorder f hn)
  isField := fun n hn => (heach n (nodes_subset_preorder f hn)).2

/-- **Every level of a reachable forest is tidy.** -/
theorem Reachable.tidy {f l : Forest} (h : f.Reachable) (hl : l ∈ f.levels) : l.Tidy :=
  Forest.tidy (h.distinct.of_mem_levels hl) fun n hn => h.each n (preorder_subset_of_mem_levels hl hn)

end Forest

/-!
## Nodes under keys

One level of a forest can be kept as an ordered map: each entry has a key, and under it stands a node
with a relation of its own. Entries are found by their key alone, so nothing in such a map says that the
key of a node is its relation. Walking the segments of an expression down the map keeps it so
nevertheless: from an empty map, walking leads to exactly the maps that hold reachable forests
(`reached_iff`), each node under its own relation and no key twice on one level (`Reached.consistent`).
-/

/-- An ordered map from keys to nodes. A node has a relation of its own, its selected fields, and the map
of the nodes below it. -/
inductive NodeMap where
  | empty
  /-- The first entry, and the later ones. -/
  | entry (key relation : String) (select : List String) (children later : NodeMap)

namespace NodeMap

def keys : NodeMap → List String
  | empty => []
  | entry key _ _ _ later => key :: later.keys

/-- Walks segments down from a map. The relation of the first one is looked up as a key, and if there is
none a new node of this relation is put under it. The field of the segment, if it has one, is added to
the node, and the other segments are walked down from the map below. -/
def walk : NodeMap → List Segment → NodeMap
  | m, [] => m
  | empty, s :: rest => entry s.target s.target (Forest.addField [] s.field) (empty.walk rest) empty
  | entry key relation select children later, s :: rest =>
    if key = s.target then
      entry key relation (Forest.addField select s.field) (children.walk rest) later
    else entry key relation select children (later.walk (s :: rest))
termination_by m segments => (segments.length, sizeOf m)

/-- The maps that walks lead to, each along an expression that was read. -/
inductive Reached : NodeMap → Prop where
  | start : Reached empty
  | walk {m : NodeMap} {text : String} {e : Expression} : Reached m →
    Expression.read text = .ok e → Reached (m.walk e.chain.segments)

/-- Each node stands under its relation, and no key stands twice on one level, at any depth. -/
def Consistent : NodeMap → Prop
  | empty => True
  | entry key relation _ children later =>
    key = relation ∧ key ∉ later.keys ∧ children.Consistent ∧ later.Consistent

end NodeMap

namespace Forest

/-- The forest as a map in which each node stands under its relation. -/
def toNodeMap : Forest → NodeMap
  | empty => .empty
  | tree relation select children siblings =>
    .entry relation relation select children.toNodeMap siblings.toNodeMap

theorem keys_toNodeMap (f : Forest) : f.toNodeMap.keys = f.names := by
  induction f with
  | empty => rfl
  | tree relation select children siblings _ ih => rw [toNodeMap, NodeMap.keys, ih, names]

theorem consistent_toNodeMap {f : Forest} (h : f.Distinct) : f.toNodeMap.Consistent := by
  induction f with
  | empty => trivial
  | tree relation select children siblings ihc ihs =>
    obtain ⟨hnew, -, hchildren, hsiblings⟩ := h
    rw [← keys_toNodeMap] at hnew
    exact ⟨rfl, hnew, ihc hchildren, ihs hsiblings⟩

end Forest

namespace NodeMap

/-! ### Walking is inserting -/

theorem walk_empty (c : Chain) : empty.walk c.segments = (Forest.ofChain c).toNodeMap := by
  induction c with
  | last relation field =>
    cases field <;> simp [Chain.segments, walk, Segment.target, Segment.field, Forest.addField,
      Forest.ofChain, Forest.toNodeMap]
  | step relation rest ih =>
    simp [Chain.segments, walk, Segment.target, Segment.field, Forest.addField, Forest.ofChain,
      Forest.toNodeMap, ih]

/-- An entry under another key than the first relation is passed over. -/
theorem walk_entry_of_ne {key : String} (relation : String) (select : List String)
    (children later : NodeMap) {c : Chain} (h : c.head ≠ key) :
    (entry key relation select children later).walk c.segments =
      entry key relation select children (later.walk c.segments) := by
  obtain ⟨s, rest, hsegments, htarget⟩ := c.segments_eq_cons
  have hkey : key ≠ s.target := fun e => h (htarget.symm.trans e.symm)
  rw [hsegments, walk, if_neg hkey]

/-- **Walking is inserting.** Where each node stands under its relation, walking the segments of a chain
leads to the map of the forest that the chain was inserted into. -/
theorem walk_toNodeMap (f : Forest) (c : Chain) :
    f.toNodeMap.walk c.segments = (f.insert c).toNodeMap := by
  fun_induction Forest.insert f c with
  | case1 c => exact walk_empty c
  | case2 select children siblings relation field =>
    cases field <;> simp [Chain.head, Chain.segments, Forest.toNodeMap, walk, Segment.target, Segment.field]
  | case3 select children siblings relation rest ih =>
    simp [Chain.head, Chain.segments, Forest.toNodeMap, walk, Segment.target, Segment.field,
      Forest.addField, ih]
  | case4 relation select children siblings c hne ih =>
    rw [Forest.toNodeMap, walk_entry_of_ne _ _ _ _ hne, ih, Forest.toNodeMap]

/-! ### What walks lead to -/

theorem reached_iff {m : NodeMap} : m.Reached ↔ ∃ f : Forest, f.Reachable ∧ m = f.toNodeMap := by
  constructor
  · intro h
    induction h with
    | start => exact ⟨.empty, .start, rfl⟩
    | @walk m text e _ hread ih =>
      obtain ⟨f, hf, rfl⟩ := ih
      exact ⟨f.insert e.chain, hf.insert hread, walk_toNodeMap f e.chain⟩
  · rintro ⟨f, hf, rfl⟩
    induction hf with
    | start => exact .start
    | @insert f text e _ hread ih =>
      rw [← walk_toNodeMap]
      exact ih.walk hread

theorem Reached.consistent {m : NodeMap} (h : m.Reached) : m.Consistent := by
  obtain ⟨f, hf, rfl⟩ := reached_iff.1 h
  exact Forest.consistent_toNodeMap hf.distinct

end NodeMap

/-!
## The levels of a descriptor list

The lists of descriptors below a list, at any depth, are those of the levels of the forest that it came
from (`levels_descriptors`), and on a tidy level each descriptor describes its node: the selection is cut
at its blanks into the fields of the node, and what is left out was empty (`describes_descriptor`).
-/

namespace Descriptor

mutual

/-- The lists below a descriptor, at any depth. -/
def listsBelow : Descriptor → List (List Descriptor)
  | mk _ _ none => []
  | mk _ _ (some ds) => ds :: listsWithin ds

/-- The lists below the descriptors of a list, at any depth. -/
def listsWithin : List Descriptor → List (List Descriptor)
  | [] => []
  | d :: ds => d.listsBelow ++ listsWithin ds

end

/-- The list itself, and the lists below it at any depth. -/
def levels (ds : List Descriptor) : List (List Descriptor) := ds :: listsWithin ds

/-- What a descriptor says of the node that it describes. -/
structure Describes (d : Descriptor) (n : Node) : Prop where
  path_eq : d.path = n.relation
  select_of_none : d.select = none → n.select = []
  /-- A selection is not empty, and between its blanks stand the fields of the node, each once. -/
  select_of_some : ∀ text, d.select = some text → text ≠ "" ∧
    (text.toList.splitOn ' ').map String.ofList = n.select ∧
    n.select.Nodup ∧ ∀ field ∈ n.select, field ≠ ""
  children_of_none : d.populate = none → n.children = .empty
  /-- A list below is not empty, and describes the children of the node. -/
  children_of_some : ∀ ds, d.populate = some ds → ds ≠ [] ∧ ds = n.children.descriptors

end Descriptor

namespace Forest

theorem listsWithin_descriptors (f : Forest) :
    Descriptor.listsWithin f.descriptors =
      ((f.preorder.map Node.children).filter fun l => !l.isEmpty).map descriptors := by
  induction f with
  | empty => rfl
  | tree relation select children siblings ihc ihs =>
    rw [descriptors, Descriptor.listsWithin, ihs, preorder, List.map_cons, List.map_append]
    by_cases h : children.isEmpty
    · obtain rfl := isEmpty_iff.1 h
      rw [if_pos h, List.filter_cons_of_neg (by simpa using h)]
      rfl
    · rw [if_neg h, List.filter_cons_of_pos (by simpa using h), Descriptor.listsBelow, ihc,
        List.filter_append, List.map_cons, List.map_append, List.cons_append]

/-- The lists of descriptors, at any depth, are those of the levels. -/
theorem levels_descriptors (f : Forest) :
    Descriptor.levels f.descriptors = f.levels.map descriptors := by
  rw [Descriptor.levels, listsWithin_descriptors, levels, List.map_cons]

theorem map_path_descriptors (f : Forest) : f.descriptors.map Descriptor.path = f.names := by
  rw [descriptors_eq_map, List.map_map, ← map_relation_nodes]
  rfl

end Forest

namespace Node

/-- A selection that is there is not empty: it names a field, and a field is not empty. -/
theorem selectText_ne_empty {n : Node} (h : ∀ field ∈ n.select, IsField field) {text : String}
    (htext : n.selectText = some text) : text ≠ "" := by
  rintro rfl
  have hfields := fieldsOf_selectText fun field hfield => (h field hfield).lacks_blank
  rw [htext] at hfields
  have hempty : "" ∈ n.select := by
    rw [← hfields]
    decide
  exact (h "" hempty).ne_nil rfl

/-- **A descriptor describes its node.** -/
theorem describes_descriptor {n : Node} (hnodup : n.select.Nodup)
    (hfields : ∀ field ∈ n.select, IsField field) : n.descriptor.Describes n where
  path_eq := rfl
  select_of_none := selectText_eq_none_iff.1
  select_of_some := by
    intro text htext
    have hcut := fieldsOf_selectText fun field hfield => (hfields field hfield).lacks_blank
    rw [show n.selectText = some text from htext] at hcut
    refine ⟨selectText_ne_empty hfields htext, hcut, hnodup, fun field hfield => ?_⟩
    rintro rfl
    exact (hfields "" hfield).ne_nil rfl
  children_of_none := by
    intro h
    by_cases hc : n.children.isEmpty
    · exact Forest.isEmpty_iff.1 hc
    · simp [descriptor, Descriptor.populate, hc] at h
  children_of_some := by
    intro ds h
    by_cases hc : n.children.isEmpty
    · simp [descriptor, Descriptor.populate, hc] at h
    · have hds : n.children.descriptors = ds := by
        simpa [descriptor, Descriptor.populate, hc] using h
      refine ⟨fun hnil => hc ?_, hds.symm⟩
      rw [hnil, Forest.descriptors_eq_nil_iff] at hds
      exact Forest.isEmpty_iff.2 hds

end Node

/-- On a tidy level the descriptors describe the nodes, each of another name. -/
theorem Forest.Tidy.describes {l : Forest} (h : l.Tidy) :
    (l.descriptors.map Descriptor.path).Nodup ∧
      List.Forall₂ Descriptor.Describes l.descriptors l.nodes := by
  refine ⟨?_, ?_⟩
  · rw [map_path_descriptors]
    exact h.nodup_names
  · rw [descriptors_eq_map, List.forall₂_map_left_iff, List.forall₂_same]
    exact fun n hn => Node.describes_descriptor (h.nodup_select n hn) (h.isField n hn)

/-!
## What every forest and every descriptor list keeps up

Whatever sequence of operations has made a forest (`Made`), it is one that insertions lead to
(`made_iff_reachable`). So its levels are tidy, its descriptors describe them node by node at every depth,
and kept as ordered maps its nodes stand under their own relations (`representation_invariant`).
-/

/-- A value compiles to descriptors where it compiles to a forest, and they are those of the forest. -/
theorem Descriptor.compile_eq_ok_iff {value : String} {ds : List Descriptor} :
    (Descriptor.compile value).result = .ok ds ↔
      ∃ f, (Forest.compile value).result = .ok f ∧ f.descriptors = ds := by
  have h : Descriptor.compile value = Forest.compile value >>= fun f => pure f.descriptors := rfl
  rw [h, Logged.bind_eq_ok_iff]
  simp only [Logged.result_pure, Except.ok.injEq]

namespace Forest

/-- The forests that the operations of the library make, in any sequence. -/
inductive Made : Forest → Prop where
  | new : Made empty
  | insert {f : Forest} {text : String} {e : Expression} : Made f →
    Expression.read text = .ok e → Made (f.insert e.chain)
  | ofExpressions {es : List Expression} :
    (∀ e ∈ es, ∃ text, Expression.read text = .ok e) → Made (ofExpressions es)
  | compile {value : String} {f : Forest} : (compile value).result = .ok f → Made f

theorem made_iff_reachable {f : Forest} : f.Made ↔ f.Reachable := by
  constructor
  · intro h
    induction h with
    | new => exact .start
    | insert _ hread ih => exact ih.insert hread
    | ofExpressions hes => exact Reachable.start.insertAll hes
    | compile h => exact reachable_of_compile h
  · intro h
    induction h with
    | start => exact .new
    | insert _ hread ih => exact ih.insert hread

/-- **The representation invariant.** On each level of a forest that the operations make, no name stands
twice, names are the relations of their nodes, looking a name up gives the one node of this name, and
relations and selected fields are those of written expressions, no field twice. The lists of descriptors
are those of the levels: on each of them the paths are distinct, and each descriptor describes its node.
Compiling to descriptors gives such a list. And in ordered maps that are walked down by key, each node
stands under its relation, no key twice on a level, and the map is that of such a forest. -/
theorem representation_invariant :
    (∀ f : Forest, f.Made →
      (∀ l ∈ f.levels, l.Tidy) ∧
      Descriptor.levels f.descriptors = f.levels.map descriptors ∧
      ∀ l ∈ f.levels, (l.descriptors.map Descriptor.path).Nodup ∧
        List.Forall₂ Descriptor.Describes l.descriptors l.nodes) ∧
    (∀ (value : String) (ds : List Descriptor), (Descriptor.compile value).result = .ok ds →
      ∃ f : Forest, f.Made ∧ (compile value).result = .ok f ∧ ds = f.descriptors) ∧
    ∀ m : NodeMap, m.Reached → m.Consistent ∧ ∃ f : Forest, f.Made ∧ m = f.toNodeMap := by
  refine ⟨fun f hf => ?_, fun value ds h => ?_, fun m hm => ⟨hm.consistent, ?_⟩⟩
  · have htidy : ∀ l ∈ f.levels, l.Tidy := fun l hl => (made_iff_reachable.1 hf).tidy hl
    exact ⟨htidy, levels_descriptors f, fun l hl => (htidy l hl).describes⟩
  · obtain ⟨f, hf, rfl⟩ := Descriptor.compile_eq_ok_iff.1 h
    exact ⟨f, .compile hf, hf, rfl⟩
  · obtain ⟨f, hf, rfl⟩ := NodeMap.reached_iff.1 hm
    exact ⟨f, made_iff_reachable.2 hf, rfl⟩

/-- Two levels, with a field that has a dot in it. -/
theorem representation_invariant_two_levels :
    (∀ l ∈ (tree "a" ["z"] (tree "b" ["x.y"] empty empty) empty).levels, l.Tidy) ∧
    (∃ f : Forest, f.Made ∧ (compile "a:b.x.y,a.z").result = .ok f ∧
      [Descriptor.mk "a" (some "z") (some [.mk "b" (some "x.y") none])] = f.descriptors) ∧
    (NodeMap.empty.walk [.relation "a", .leaf "b" "x.y"]).Consistent := by
  have hf : (compile "a:b.x.y,a.z").result =
      .ok (tree "a" ["z"] (tree "b" ["x.y"] empty empty) empty) := by decide +kernel
  have hds : (Descriptor.compile "a:b.x.y,a.z").result =
      .ok [.mk "a" (some "z") (some [.mk "b" (some "x.y") none])] := by decide +kernel
  have hread : Expression.read "a:b.x.y" =
      .ok ⟨"a:b.x.y", .step "a" (.last "b" (some "x.y"))⟩ := by decide +kernel
  exact ⟨(representation_invariant.1 _ (.compile hf)).1, representation_invariant.2.1 _ _ hds,
    (representation_invariant.2.2 _ (NodeMap.Reached.start.walk hread)).1⟩

end Forest

end PopulateQuery
