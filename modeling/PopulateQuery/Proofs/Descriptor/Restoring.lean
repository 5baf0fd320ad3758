import PopulateQuery.Forest
import PopulateQuery.Proofs.Descriptor.Reading
import PopulateQuery.Proofs.Forest.Distinct
import PopulateQuery.Proofs.RoundTrip

/-!
# Descriptors and their forest

A reachable forest can be restored from its descriptors, so these tell forests apart (`descriptors_faithful`).
-/

namespace PopulateQuery

/-!
## Forests restored from descriptors

A descriptor names the fields of a node in one text with blanks between them, and leaves out what is
empty. Nothing is lost by this where no field has a blank in it: the text is cut at its blanks into the
fields (`fieldsOf_selectText`), what is left out was empty, and so the whole forest can be restored from
its descriptors (`restore_descriptors`).
-/

/-! ### Selections -/

/-- The fields that a selection names: what stands between its blanks. -/
def Descriptor.fieldsOf : Option String → List String
  | none => []
  | some text => (text.toList.splitOn ' ').map String.ofList

/-- A field of a written expression has no blank in it. -/
theorem IsField.lacks_blank {s : String} (h : IsField s) : ' ' ∉ s.toList :=
  Text.not_mem_of_solid h.solid (by decide)

namespace Node

theorem selectText_eq_none_iff {n : Node} : n.selectText = none ↔ n.select = [] := by
  simp [selectText]

theorem selectText_eq_some_iff {n : Node} {text : String} :
    n.selectText = some text ↔ n.select ≠ [] ∧ " ".intercalate n.select = text := by
  simp [selectText]

/-- The selection of a node names the fields of the node. -/
theorem fieldsOf_selectText {n : Node} (h : ∀ field ∈ n.select, ' ' ∉ field.toList) :
    Descriptor.fieldsOf n.selectText = n.select := by
  cases htext : n.selectText with
  | none => rw [selectText_eq_none_iff.1 htext, Descriptor.fieldsOf]
  | some text =>
    obtain ⟨hne, rfl⟩ := selectText_eq_some_iff.1 htext
    have hcut : ([' '].intercalate (n.select.map String.toList)).splitOn ' ' =
        n.select.map String.toList := by
      refine List.splitOn_intercalate ' ' (fun cs hcs => ?_) (by simpa using hne)
      obtain ⟨field, hfield, rfl⟩ := List.mem_map.1 hcs
      exact h field hfield
    rw [Descriptor.fieldsOf, String.toList_intercalate, show " ".toList = [' '] from rfl, hcut,
      List.map_map]
    simp [Function.comp_def]

end Node

/-! ### Whole forests -/

namespace Forest

/-- No field has a blank in it, at any depth. -/
def PlainFields (f : Forest) : Prop := f.Each (fun _ => True) (' ' ∉ ·.toList)

/-- The forest that a list of descriptors describes. -/
def restore : List Descriptor → Forest
  | [] => empty
  | .mk path select none :: ds => tree path (Descriptor.fieldsOf select) empty (restore ds)
  | .mk path select (some below) :: ds =>
    tree path (Descriptor.fieldsOf select) (restore below) (restore ds)

theorem Reachable.plainFields {f : Forest} (h : f.Reachable) : f.PlainFields := fun n hn =>
  ⟨trivial, fun field hfield => ((h.each n hn).2 field hfield).lacks_blank⟩

theorem isEmpty_iff {f : Forest} : f.isEmpty = true ↔ f = empty := by
  cases f <;> simp [isEmpty]

theorem descriptors_eq_nil_iff {f : Forest} : f.descriptors = [] ↔ f = empty := by
  cases f <;> simp [descriptors]

/-- **A forest is restored from its descriptors.** -/
theorem restore_descriptors {f : Forest} (h : f.PlainFields) : restore f.descriptors = f := by
  induction f with
  | empty => rw [descriptors, restore]
  | tree relation select children siblings ihc ihs =>
    obtain ⟨⟨-, hfields⟩, hchildren, hsiblings⟩ := each_tree.1 h
    have hselect := Node.fieldsOf_selectText (n := ⟨relation, select, children⟩) hfields
    rw [descriptors]
    by_cases hc : children.isEmpty
    · obtain rfl := isEmpty_iff.1 hc
      rw [if_pos hc, restore, hselect, ihs hsiblings]
    · rw [if_neg hc, restore, hselect, ihc hchildren, ihs hsiblings]

theorem descriptors_inj {f g : Forest} (hf : f.PlainFields) (hg : g.PlainFields) :
    f.descriptors = g.descriptors ↔ f = g := by
  refine ⟨fun h => ?_, fun h => by rw [h]⟩
  rw [← restore_descriptors hf, ← restore_descriptors hg, h]

/-! ### Single nodes -/

/-- The forest that has one tree. -/
def ofNode (n : Node) : Forest := tree n.relation n.select n.children empty

theorem descriptors_ofNode (n : Node) : (ofNode n).descriptors = [n.descriptor] := rfl

theorem ofNode_inj {n m : Node} : ofNode n = ofNode m ↔ n = m := by
  cases n
  cases m
  simp [ofNode]

theorem PlainFields.ofNode {f : Forest} (h : f.PlainFields) {name : String} {n : Node}
    (hn : f.get? name = some n) : (Forest.ofNode n).PlainFields := by
  obtain ⟨hmem, hbelow⟩ := mem_preorder_of_get? hn
  exact each_tree.2 ⟨h n hmem, fun m hm => h m (hbelow hm), each_empty⟩

/-- Looking a name up finds the first node of this name. -/
theorem find?_nodes (f : Forest) (name : String) :
    f.nodes.find? (·.relation == name) = f.get? name := by
  induction f with
  | empty => rfl
  | tree relation select children siblings _ ih =>
    by_cases h : relation = name
    · simp [nodes, get?, h]
    · simp [nodes, get?, h, ih]

/-- The descriptor of a top-level name is that of the node of this name. -/
theorem find?_descriptors (f : Forest) (name : String) :
    f.descriptors.find? (·.path == name) = (f.get? name).map Node.descriptor := by
  rw [descriptors_eq_map, List.find?_map, ← find?_nodes]
  rfl

end Forest

theorem Node.descriptor_inj {n m : Node} (hn : (Forest.ofNode n).PlainFields)
    (hm : (Forest.ofNode m).PlainFields) : n.descriptor = m.descriptor ↔ n = m := by
  have h := Forest.descriptors_inj hn hm
  rw [Forest.descriptors_ofNode, Forest.descriptors_ofNode, Forest.ofNode_inj] at h
  simpa using h

/-!
## How deep descriptors are nested

Every descriptor of a list, at any depth, together with the number of descriptors on the way down to it
(`Descriptor.entries`). Those of a forest have relations of the forest as their paths, and none is nested
deeper than the forest (`entries_descriptors`). The longest way down a list of descriptors
(`Descriptor.nesting`) is as long as the forest is deep that it came from (`nesting_descriptors`).
-/

namespace Descriptor

mutual

/-- A descriptor that is `level` deep, and those below it, each with how deep it is. -/
def entriesFrom (level : Nat) : Descriptor → List (Nat × Descriptor)
  | mk path select none => [(level, mk path select none)]
  | mk path select (some ds) => (level, mk path select (some ds)) :: entriesWithin (level + 1) ds

/-- The descriptors of a list that is `level` deep, and those below them, each with how deep it is. -/
def entriesWithin (level : Nat) : List Descriptor → List (Nat × Descriptor)
  | [] => []
  | d :: ds => entriesFrom level d ++ entriesWithin level ds

end

/-- The descriptors of a list and those below them at any depth; those of the list itself are one deep. -/
def entries (ds : List Descriptor) : List (Nat × Descriptor) := entriesWithin 1 ds

mutual

/-- The number of descriptors on the longest way down from a descriptor, which counts itself. -/
def height : Descriptor → Nat
  | mk _ _ none => 1
  | mk _ _ (some ds) => nesting ds + 1

/-- The number of descriptors on the longest way down a list. -/
def nesting : List Descriptor → Nat
  | [] => 0
  | d :: ds => max d.height (nesting ds)

end

end Descriptor

namespace Forest

/-- The first descriptor of a forest is followed by those of its children, one deeper. -/
theorem entriesFrom_descriptor (level : Nat) (n : Node) :
    Descriptor.entriesFrom level n.descriptor =
      (level, n.descriptor) :: Descriptor.entriesWithin (level + 1) n.children.descriptors := by
  rw [Node.descriptor]
  by_cases h : n.children.isEmpty
  · rw [if_pos h, isEmpty_iff.1 h, Descriptor.entriesFrom, descriptors, Descriptor.entriesWithin]
  · rw [if_neg h, Descriptor.entriesFrom]

theorem entriesWithin_descriptors (f : Forest) (level : Nat) :
    ∀ entry ∈ Descriptor.entriesWithin level f.descriptors,
      entry.1 < level + f.depth ∧ ∃ n ∈ f.preorder, entry.2 = n.descriptor := by
  induction f generalizing level with
  | empty => simp [descriptors, Descriptor.entriesWithin]
  | tree relation select children siblings ihc ihs =>
    rw [descriptors_eq_map, nodes, List.map_cons, ← descriptors_eq_map, Descriptor.entriesWithin,
      entriesFrom_descriptor, depth, preorder]
    rw [List.cons_append, List.forall_mem_cons, List.forall_mem_append]
    refine ⟨⟨by omega, _, List.mem_cons_self, rfl⟩, fun entry hentry => ?_, fun entry hentry => ?_⟩
    · obtain ⟨hlevel, n, hn, hentry⟩ := ihc (level + 1) entry hentry
      exact ⟨by omega, n, List.mem_cons_of_mem _ (List.mem_append_left _ hn), hentry⟩
    · obtain ⟨hlevel, n, hn, hentry⟩ := ihs level entry hentry
      exact ⟨by omega, n, List.mem_cons_of_mem _ (List.mem_append_right _ hn), hentry⟩

/-- **What the descriptors of a forest name and how deep they go.** -/
theorem entries_descriptors {f : Forest} {entry : Nat × Descriptor}
    (h : entry ∈ Descriptor.entries f.descriptors) :
    entry.1 ≤ f.depth ∧ ∃ n ∈ f.preorder, entry.2.path = n.relation := by
  obtain ⟨hlevel, n, hn, hentry⟩ := entriesWithin_descriptors f 1 entry h
  refine ⟨by omega, n, hn, ?_⟩
  rw [hentry]
  rfl

theorem height_descriptor (n : Node) : n.descriptor.height = Descriptor.nesting n.children.descriptors + 1 := by
  rw [Node.descriptor]
  by_cases h : n.children.isEmpty
  · rw [if_pos h, isEmpty_iff.1 h, Descriptor.height, descriptors, Descriptor.nesting]
  · rw [if_neg h, Descriptor.height]

/-- **Descriptors are nested as deep as their forest is.** -/
theorem nesting_descriptors (f : Forest) : Descriptor.nesting f.descriptors = f.depth := by
  induction f with
  | empty => rfl
  | tree relation select children siblings ihc ihs =>
    rw [descriptors_eq_map, nodes, List.map_cons, ← descriptors_eq_map, Descriptor.nesting, height_descriptor,
      ihc, ihs, depth]

/-!
## Descriptors are a faithful image

Fields are joined to one text and what is empty is left out, yet no two reachable forests have the same
descriptors, because a field that was read has no blank in it. The same holds of the JSON form, and of
single nodes (`descriptors_faithful`).
-/

/-- **Descriptors are a faithful image of the forest.** Two reachable forests are equal if and only if
their lists of descriptors are, and if and only if these have the same JSON form. Two top-level nodes of
one name are equal if and only if their descriptors are, and these are the entries that the lists have
under this name. -/
theorem descriptors_faithful {f g : Forest} (hf : f.Reachable) (hg : g.Reachable) :
    (f = g ↔ f.descriptors = g.descriptors) ∧
    (f = g ↔ Descriptor.listToJson f.descriptors = Descriptor.listToJson g.descriptors) ∧
    ∀ (name : String) (n m : Node), f.get? name = some n → g.get? name = some m →
      (n = m ↔ n.descriptor = m.descriptor) ∧
      f.descriptors.find? (·.path == name) = some n.descriptor ∧
      g.descriptors.find? (·.path == name) = some m.descriptor := by
  have hlists := descriptors_inj hf.plainFields hg.plainFields
  refine ⟨hlists.symm, ?_, fun name n m hn hm => ⟨?_, ?_, ?_⟩⟩
  · rw [Descriptor.listToJson_inj, hlists]
  · exact (Node.descriptor_inj (hf.plainFields.ofNode hn) (hg.plainFields.ofNode hm)).symm
  · rw [find?_descriptors, hn, Option.map_some]
  · rw [find?_descriptors, hm, Option.map_some]

/-- Two values that select two fields in opposite orders. -/
theorem descriptors_faithful_to_field_order :
    (tree "a" ["x", "y"] empty empty).descriptors ≠ (tree "a" ["y", "x"] empty empty).descriptors ∧
      (Node.mk "a" ["x", "y"] empty).descriptor ≠ (Node.mk "a" ["y", "x"] empty).descriptor := by
  have hf : (compile "a.x,a.y").result = .ok (tree "a" ["x", "y"] empty empty) := by decide +kernel
  have hg : (compile "a.y,a.x").result = .ok (tree "a" ["y", "x"] empty empty) := by decide +kernel
  have hfaithful := descriptors_faithful (reachable_of_compile hf) (reachable_of_compile hg)
  have hnode := (hfaithful.2.2 "a" ⟨"a", ["x", "y"], empty⟩ ⟨"a", ["y", "x"], empty⟩ rfl rfl).1
  exact ⟨fun h => absurd (hfaithful.1.2 h) (by decide), fun h => absurd (hnode.2 h) (by decide)⟩

end Forest

end PopulateQuery
