import Mathlib.Data.List.Nodup
import Mathlib.Data.List.Perm.Subperm
import PopulateQuery.Forest
import PopulateQuery.Proofs.Compilation
import PopulateQuery.Proofs.Forest.Distinct

/-!
# Canonical chains

The canonical chains of a forest build it again, and none of them can be spared.
-/

namespace PopulateQuery

/-!
## Merging the canonical chains again

The canonical chains of a forest are in pre-order, so merging them into nothing builds its trees one
after the other: a chain whose head is not among the trees that are done goes past them
(`insertChains_append_of_not_mem`), the first chain of a tree makes it, the rest of its own chains
give it its fields (`insertChains_ownChains`), and the chains below it build its children
(`insertChains_step`). This gives the forest back (`insertChains_canonical`).
-/

namespace Forest

def append : Forest → Forest → Forest
  | empty, g => g
  | tree relation select children siblings, g => tree relation select children (siblings.append g)

theorem append_empty (f : Forest) : f.append empty = f := by
  induction f with
  | empty => rfl
  | tree relation select children siblings _ ih => rw [append, ih]

theorem append_assoc (f g h : Forest) : (f.append g).append h = f.append (g.append h) := by
  induction f with
  | empty => rfl
  | tree relation select children siblings _ ih => rw [append, append, append, ih]

theorem names_append (f g : Forest) : (f.append g).names = f.names ++ g.names := by
  induction f with
  | empty => rfl
  | tree relation select children siblings _ ih => rw [append, names, ih, names, List.cons_append]

/-- The chains that write down one tree: those of its top level, and those below it. -/
def treeChains (relation : String) (select : List String) (children : Forest) : List Chain :=
  ownChains relation select children ++ children.canonical.map (.step relation)

theorem canonical_tree (relation : String) (select : List String) (children siblings : Forest) :
    (tree relation select children siblings).canonical =
      treeChains relation select children ++ siblings.canonical := rfl

theorem treeChains_ne_nil (children : Forest) : ∀ (relation : String) (select : List String),
    treeChains relation select children ≠ [] := by
  induction children with
  | empty =>
    intro relation select
    cases select <;> simp [treeChains, ownChains, isEmpty]
  | tree name fields below siblings ih _ =>
    intro relation select
    have hbelow : (tree name fields below siblings).canonical ≠ [] := by
      rw [canonical_tree]
      exact List.append_ne_nil_of_left_ne_nil (ih name fields) _
    rw [treeChains]
    exact List.append_ne_nil_of_right_ne_nil _ (by simpa using hbelow)

/-- The chains of a tree start at its relation. -/
theorem head_of_mem_treeChains {relation : String} {select : List String} {children : Forest}
    {c : Chain} (h : c ∈ treeChains relation select children) : c.head = relation := by
  rcases List.mem_append.1 h with h | h
  · unfold ownChains at h
    split at h
    · rw [List.mem_singleton.1 h]
      rfl
    · obtain ⟨field, -, rfl⟩ := List.mem_map.1 h
      rfl
  · obtain ⟨rest, -, rfl⟩ := List.mem_map.1 h
    rfl

theorem canonical_eq_nil_iff {f : Forest} : f.canonical = [] ↔ f = empty := by
  cases f with
  | empty => simp [canonical]
  | tree relation select children siblings =>
    simp [canonical_tree, treeChains_ne_nil]

/-! ### Past the trees that are done -/

theorem insert_append_of_not_mem {front : Forest} (f : Forest) {c : Chain}
    (h : c.head ∉ front.names) : (front.append f).insert c = front.append (f.insert c) := by
  induction front with
  | empty => rfl
  | tree relation select children siblings _ ih =>
    rw [names, List.mem_cons, not_or] at h
    rw [append, insert_of_ne _ _ _ h.1, ih h.2, append]

theorem insertChains_append_of_not_mem {front : Forest} (f : Forest) {cs : List Chain}
    (h : ∀ c ∈ cs, c.head ∉ front.names) :
    (front.append f).insertChains cs = front.append (f.insertChains cs) := by
  induction cs generalizing f with
  | nil => rfl
  | cons c cs ih =>
    rw [List.forall_mem_cons] at h
    rw [insertChains_cons, insert_append_of_not_mem f h.1, ih (f.insert c) h.2, insertChains_cons]

/-! ### Inside one tree -/

/-- The first chain makes the tree that it grows in. -/
theorem insert_empty (c : Chain) : empty.insert c = (tree c.head [] empty empty).insert c := by
  cases c with
  | last relation field =>
    rw [Chain.head, insert_last]
    cases field <;> rfl
  | step relation rest =>
    rw [Chain.head, insert_step]
    simp [insert, ofChain]

theorem insertChains_step (relation : String) (select : List String) (children siblings : Forest)
    (cs : List Chain) :
    (tree relation select children siblings).insertChains (cs.map (.step relation)) =
      tree relation select (children.insertChains cs) siblings := by
  induction cs generalizing children with
  | nil => rfl
  | cons c cs ih => rw [List.map_cons, insertChains_cons, insert_step, ih, insertChains_cons]

theorem insertChains_fields (relation : String) (children siblings : Forest) (fields : List String) :
    ∀ {select : List String}, (select ++ fields).Nodup →
      (tree relation select children siblings).insertChains
        (fields.map fun field => .last relation (some field)) =
          tree relation (select ++ fields) children siblings := by
  induction fields with
  | nil => simp
  | cons field fields ih =>
    intro select h
    have hnew : field ∉ select := fun hmem =>
      (List.nodup_append.1 h).2.2 field hmem field List.mem_cons_self rfl
    have hadd : addField select (some field) = select ++ [field] := if_neg hnew
    have hmoved : (select ++ [field]) ++ fields = select ++ field :: fields := by simp
    rw [List.map_cons, insertChains_cons, insert_last, hadd, ih (hmoved ▸ h), hmoved]

/-- The chains of one level give a new tree its fields. -/
theorem insertChains_ownChains (relation : String) {select : List String} (h : select.Nodup)
    (children : Forest) :
    (tree relation [] empty empty).insertChains (ownChains relation select children) =
      tree relation select empty empty := by
  unfold ownChains
  split
  · rename_i hbare
    obtain ⟨rfl, -⟩ : select = [] ∧ children.isEmpty = true := by simpa using hbare
    rw [insertChains_cons, insert_last]
    rfl
  · exact insertChains_fields relation empty empty select h

/-- The chains of one tree build it, if those of its children build these. -/
theorem insertChains_treeChains (relation : String) {select : List String} {children : Forest}
    (h : select.Nodup) (hchildren : empty.insertChains children.canonical = children) :
    empty.insertChains (treeChains relation select children) =
      tree relation select children empty := by
  obtain ⟨c, cs, hcs⟩ := List.exists_cons_of_ne_nil (treeChains_ne_nil children relation select)
  have hhead : c.head = relation := head_of_mem_treeChains (hcs ▸ List.mem_cons_self)
  have hmake : empty.insertChains (treeChains relation select children) =
      (tree relation [] empty empty).insertChains (treeChains relation select children) := by
    rw [hcs, insertChains_cons, insertChains_cons, insert_empty, hhead]
  rw [hmake, treeChains, insertChains_append, insertChains_ownChains relation h, insertChains_step,
    hchildren]

/-! ### The whole forest -/

/-- The canonical chains put their forest behind trees of other names. -/
theorem insertChains_canonical_behind {f : Forest} (h : f.Distinct) :
    ∀ {front : Forest}, (∀ name ∈ f.names, name ∉ front.names) →
      front.insertChains f.canonical = front.append f := by
  induction f with
  | empty => exact fun {front} _ => (append_empty front).symm
  | tree relation select children siblings ihc ihs =>
    intro front hfront
    obtain ⟨hname, hselect, hchildren, hsiblings⟩ := h
    rw [names, List.forall_mem_cons] at hfront
    -- the chains of the first tree build it at the end of the front
    have hbuilt : empty.insertChains children.canonical = children := ihc hchildren (by simp [names])
    have hpast : ∀ c ∈ treeChains relation select children, c.head ∉ front.names := by
      intro c hc
      rw [head_of_mem_treeChains hc]
      exact hfront.1
    have htree := insertChains_append_of_not_mem empty hpast
    rw [append_empty, insertChains_treeChains relation hselect hbuilt] at htree
    -- and those of its siblings go past it
    have hrest : ∀ name ∈ siblings.names,
        name ∉ (front.append (tree relation select children empty)).names := by
      intro name hmem
      rw [names_append, List.mem_append, not_or]
      refine ⟨hfront.2 name hmem, ?_⟩
      simp only [names, List.mem_singleton]
      rintro rfl
      exact hname hmem
    rw [canonical_tree, insertChains_append, htree, ihs hsiblings hrest, append_assoc]
    rfl

/-- **Merging the canonical chains gives the forest back.** -/
theorem insertChains_canonical {f : Forest} (h : f.Distinct) : empty.insertChains f.canonical = f :=
  insertChains_canonical_behind h (by simp [names])

/-!
## The chains that a forest needs

A forest needs a chain that selects a field of the node it leads to, and a bare chain to a node with neither
fields nor children (`Needs`). The canonical chains are the chains that it needs (`mem_canonical_iff`), each
once (`nodup_canonical`). Whatever expressions build the forest, these are among their chains
(`exists_chain_of_needs`), and every other chain of them is bare and leads to a node that has fields or children
(`mem_canonical_ofExpressions_iff`).
-/

/-- The chain leads to a node that selects its field; or it has no field, and the node has neither fields
nor children. -/
def Needs (f : Forest) (c : Chain) : Prop :=
  ∃ n, f.at? c.relations = some n ∧ match c.field with
    | some field => field ∈ n.select
    | none => n.select = [] ∧ n.children = empty

/-! ### The canonical chains of one tree -/

theorem head_mem_names_of_mem_canonical {f : Forest} {c : Chain} (h : c ∈ f.canonical) : c.head ∈ f.names := by
  induction f with
  | empty => cases h
  | tree relation select children siblings _ ih =>
    rw [canonical_tree, List.mem_append] at h
    rw [names, List.mem_cons]
    exact h.imp head_of_mem_treeChains ih

theorem mem_ownChains_iff {relation name : String} {select : List String} {children : Forest}
    {field : Option String} : .last name field ∈ ownChains relation select children ↔
      name = relation ∧ match field with
        | some x => x ∈ select
        | none => select = [] ∧ children = empty := by
  have hbare : (select.isEmpty && children.isEmpty) = true ↔ select = [] ∧ children = empty := by
    cases children <;> simp [isEmpty]
  unfold ownChains
  split
  · rename_i h
    obtain ⟨rfl, rfl⟩ := hbare.1 h
    cases field <;> simp
  · rename_i h
    rw [hbare] at h
    cases field with
    | none => simp [h]
    | some x => simp [eq_comm, and_comm]

theorem step_not_mem_ownChains {relation name : String} {select : List String} {children : Forest}
    {rest : Chain} : .step name rest ∉ ownChains relation select children := by
  unfold ownChains
  split <;> simp

theorem step_mem_treeChains_iff {relation name : String} {select : List String} {children : Forest}
    {rest : Chain} : .step name rest ∈ treeChains relation select children ↔
      name = relation ∧ rest ∈ children.canonical := by
  simp [treeChains, step_not_mem_ownChains, eq_comm, and_comm]

theorem last_mem_treeChains_iff {relation name : String} {select : List String} {children : Forest}
    {field : Option String} : .last name field ∈ treeChains relation select children ↔
      .last name field ∈ ownChains relation select children := by
  simp [treeChains]

/-! ### What a tree needs -/

section Tree
variable {relation : String} (select : List String) (children siblings : Forest)

theorem needs_tree_last (field : Option String) :
    (tree relation select children siblings).Needs (.last relation field) ↔
      .last relation field ∈ ownChains relation select children := by
  simp [Needs, Chain.relations, Chain.field, at?, get?, mem_ownChains_iff]

theorem needs_tree_step (rest : Chain) :
    (tree relation select children siblings).Needs (.step relation rest) ↔ children.Needs rest := by
  rw [Needs, Needs, Chain.relations, at?_tree_self _ _ _ _ rest.relations_ne_nil]
  rfl

theorem needs_tree_of_ne {c : Chain} (h : c.head ≠ relation) :
    (tree relation select children siblings).Needs c ↔ siblings.Needs c := by
  obtain ⟨rest, hrest⟩ := c.relations_eq_cons
  rw [Needs, Needs, hrest, at?_tree_of_ne _ _ _ h.symm]

end Tree

theorem not_needs_empty (c : Chain) : ¬ empty.Needs c := by
  obtain ⟨rest, hrest⟩ := c.relations_eq_cons
  rintro ⟨n, hn, -⟩
  rw [hrest] at hn
  cases mem_names_of_at? hn

/-- **The canonical chains are the chains that the forest needs.** -/
theorem mem_canonical_iff {f : Forest} (h : f.Distinct) {c : Chain} : c ∈ f.canonical ↔ f.Needs c := by
  induction f generalizing c with
  | empty => exact iff_of_false List.not_mem_nil (not_needs_empty c)
  | tree relation select children siblings ihc ihs =>
    obtain ⟨hnew, -, hchildren, hsiblings⟩ := h
    rw [canonical_tree, List.mem_append]
    -- the head decides whether the chain is a matter of the first tree or of its siblings
    by_cases hhead : c.head = relation
    · have hlater : c ∉ siblings.canonical := fun hmem =>
        hnew (hhead ▸ head_mem_names_of_mem_canonical hmem)
      rw [or_iff_left hlater]
      cases c with
      | last name field =>
        obtain rfl : name = relation := hhead
        rw [last_mem_treeChains_iff, needs_tree_last]
      | step name rest =>
        obtain rfl : name = relation := hhead
        rw [step_mem_treeChains_iff, needs_tree_step, ← ihc hchildren]
        exact and_iff_right rfl
    · have hfirst : c ∉ treeChains relation select children := fun hmem =>
        hhead (head_of_mem_treeChains hmem)
      rw [or_iff_right hfirst, needs_tree_of_ne _ _ _ hhead, ihs hsiblings]

/-! ### Each chain once -/

theorem nodup_ownChains {relation : String} {select : List String} (h : select.Nodup) (children : Forest) :
    (ownChains relation select children).Nodup := by
  unfold ownChains
  split
  · exact List.nodup_singleton _
  · exact h.map fun x y hxy => by simpa using hxy

theorem nodup_canonical {f : Forest} (h : f.Distinct) : f.canonical.Nodup := by
  induction f with
  | empty => exact List.nodup_nil
  | tree relation select children siblings ihc ihs =>
    obtain ⟨hnew, hselect, hchildren, hsiblings⟩ := h
    have hbelow : (children.canonical.map (Chain.step relation)).Nodup :=
      (ihc hchildren).map fun x y hxy => by simpa using hxy
    have htree : (treeChains relation select children).Nodup := by
      refine List.nodup_append.2 ⟨nodup_ownChains hselect children, hbelow, ?_⟩
      rintro c hown d hd rfl
      obtain ⟨rest, -, rfl⟩ := List.mem_map.1 hd
      exact step_not_mem_ownChains hown
    rw [canonical_tree]
    refine List.nodup_append.2 ⟨htree, ihs hsiblings, ?_⟩
    rintro c hc d hd rfl
    exact hnew (head_of_mem_treeChains hc ▸ head_mem_names_of_mem_canonical hd)

/-! ### Expressions that build the forest -/

section Build
variable {es : List Expression} {path : List String} {n : Node}

/-- A node selects the fields of the chains that end at it. -/
theorem mem_select_iff (hn : (ofExpressions es).at? path = some n) {field : String} :
    field ∈ n.select ↔ ∃ e ∈ es, e.chain.relations = path ∧ e.chain.field = some field := by
  rcases List.eq_nil_or_concat' path with rfl | ⟨init, last, rfl⟩
  · cases hf : ofExpressions es <;> rw [hf] at hn <;> cases hn
  · have hselect := selectAt_ofExpressions es init last
    rw [selectAt, hn, Option.elim_some] at hselect
    rw [hselect, List.mem_eraseDups, List.mem_filterMap]
    simp only [Chain.fieldAt?, Option.ite_none_right_eq_some]

/-- Below a node stand the relations that follow it in chains which go on. -/
theorem mem_names_children_iff (hn : (ofExpressions es).at? path = some n) {name : String} :
    name ∈ n.children.names ↔ ∃ e ∈ es, path ++ [name] <+: e.chain.relations := by
  rw [children_of_at? hn, names_under_ofExpressions, List.mem_eraseDups, List.mem_filterMap]
  simp only [Chain.nextAfter?_eq_some_iff]

/-- A path with nothing below it is all of every chain that goes along it. -/
theorem relations_eq_of_no_children (hn : (ofExpressions es).at? path = some n) (hchildren : n.children = empty)
    {e : Expression} (he : e ∈ es) (hpath : path <+: e.chain.relations) : e.chain.relations = path := by
  obtain ⟨more, hmore⟩ := hpath
  cases more with
  | nil => rw [← hmore, List.append_nil]
  | cons name more =>
    have hname : name ∈ n.children.names :=
      (mem_names_children_iff hn).2 ⟨e, he, more, by rw [← hmore, List.append_assoc, List.singleton_append]⟩
    rw [hchildren] at hname
    cases hname

/-- What a forest needs is among the chains that build it. -/
theorem exists_chain_of_needs {c : Chain} (h : (ofExpressions es).Needs c) : ∃ e ∈ es, e.chain = c := by
  obtain ⟨n, hn, hneeded⟩ := h
  cases hfield : c.field with
  | some field =>
    rw [hfield] at hneeded
    obtain ⟨e, he, hrelations, hsame⟩ := (mem_select_iff hn).1 hneeded
    exact ⟨e, he, Chain.eq_of_relations_of_field hrelations (hsame.trans hfield.symm)⟩
  | none =>
    rw [hfield] at hneeded
    obtain ⟨hselect, hchildren⟩ := hneeded
    obtain ⟨init, last, hpath⟩ := c.relations_eq_concat
    obtain ⟨e, he, hprefix⟩ := (exists_at?_ofExpressions es init last).1 ⟨n, hpath ▸ hn⟩
    have hrelations := relations_eq_of_no_children hn hchildren he (hpath ▸ hprefix)
    refine ⟨e, he, Chain.eq_of_relations_of_field hrelations ?_⟩
    -- a field would be selected at the node, which selects none
    rw [hfield, Option.eq_none_iff_forall_ne_some]
    intro field hsome
    have hmem := (mem_select_iff hn).2 ⟨e, he, hrelations, hsome⟩
    rw [hselect] at hmem
    cases hmem

/-- **What is kept of the expressions, and what is not.** The canonical chains are the chains with a field,
and the bare ones that lead to a node with neither fields nor children. -/
theorem mem_canonical_ofExpressions_iff {c : Chain} : c ∈ (ofExpressions es).canonical ↔
    ∃ e ∈ es, e.chain = c ∧ (e.chain.field ≠ none ∨
      ∃ n, (ofExpressions es).at? e.chain.relations = some n ∧ n.select = [] ∧ n.children = empty) := by
  rw [mem_canonical_iff (distinct_ofExpressions es)]
  constructor
  · intro h
    obtain ⟨e, he, rfl⟩ := exists_chain_of_needs h
    obtain ⟨n, hn, hneeded⟩ := h
    refine ⟨e, he, rfl, ?_⟩
    cases hfield : e.chain.field with
    | some field => exact Or.inl (by simp)
    | none =>
      rw [hfield] at hneeded
      exact Or.inr ⟨n, hn, hneeded⟩
  · rintro ⟨e, he, rfl, hkept⟩
    cases hfield : e.chain.field with
    | some field =>
      obtain ⟨init, last, hpath⟩ := e.chain.relations_eq_concat
      obtain ⟨n, hn⟩ := (exists_at?_ofExpressions es init last).2 ⟨e, he, hpath ▸ List.prefix_refl _⟩
      rw [← hpath] at hn
      refine ⟨n, hn, ?_⟩
      rw [hfield]
      exact (mem_select_iff hn).2 ⟨e, he, rfl, hfield⟩
    | none =>
      obtain ⟨n, hn, hbare⟩ := hkept.resolve_left (not_not_intro hfield)
      refine ⟨n, hn, ?_⟩
      rw [hfield]
      exact hbare

/-- **No fewer expressions build the forest.** -/
theorem length_canonical_le (es : List Expression) : (ofExpressions es).canonical.length ≤ es.length := by
  have hsub : (ofExpressions es).canonical ⊆ es.map Expression.chain := by
    intro c hc
    obtain ⟨e, he, rfl, -⟩ := mem_canonical_ofExpressions_iff.1 hc
    exact List.mem_map_of_mem he
  have hle := ((nodup_canonical (distinct_ofExpressions es)).subperm hsub).length_le
  rwa [List.length_map] at hle

end Build

end Forest

end PopulateQuery
