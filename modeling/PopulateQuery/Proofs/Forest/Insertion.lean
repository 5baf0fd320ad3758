import PopulateQuery.Forest
import PopulateQuery.Proofs.Forest.Canonical
import PopulateQuery.Proofs.Forest.Distinct

/-!
# What an insertion changes, and when it changes nothing

An insertion grows a forest along one path only (`insertion_grows_only_its_path`), and nothing grows where a chain
is covered already (`covered_insertions_change_nothing`).
-/

namespace PopulateQuery

/-!
## What one insertion changes

An insertion touches nothing but the nodes along its own chain (`at?_insert_of_not_prefix`). Those that are
missing there are made, with nothing in them but what the chain says (`insertion_grows_only_its_path`), and the
others get at most one field and one child more, each at the end. So whatever run of insertions comes later,
what stands at a node stays there, in the same order (`grown_insertAll`).
-/

namespace Forest

/-- What a name adds to a list of names: itself, if it is new there. -/
def added (before : List String) (name : Option String) : List String :=
  (name.filter (· ∉ before)).toList

theorem addField_eq_append (before : List String) (name : Option String) :
    addField before name = before ++ added before name := by
  cases name with
  | none => simp [addField, added]
  | some x => by_cases h : x ∈ before <;> simp [addField, added, Option.filter, h]

theorem added_nil (name : Option String) : added [] name = name.toList := by
  cases name <;> simp [added, Option.filter]

/-! ### Nodes at the end of a path -/

theorem relation_of_get? {f : Forest} {name : String} {n : Node} (h : f.get? name = some n) :
    n.relation = name := by
  induction f with
  | empty => cases h
  | tree relation select children siblings _ ih =>
    rw [get?] at h
    split at h
    · rename_i hname
      cases h
      exact hname
    · exact ih h

theorem relation_of_at? {f : Forest} {init : List String} {last : String} {n : Node}
    (h : f.at? (init ++ [last]) = some n) : n.relation = last := by
  rw [at?_concat] at h
  exact relation_of_get? h

theorem under_concat (f : Forest) (init : List String) (last : String) :
    f.under (init ++ [last]) = (f.under init).childrenOf last := by
  induction init generalizing f with
  | nil => rfl
  | cons name init ih => exact ih (f.childrenOf name)

/-- Where no node stands there is nothing below. -/
theorem under_of_at?_eq_none {f : Forest} {init : List String} {last : String}
    (h : f.at? (init ++ [last]) = none) : f.under (init ++ [last]) = empty := by
  rw [at?_concat] at h
  rw [under_concat, childrenOf, h, Option.elim_none]

theorem exists_at?_concat_iff {f : Forest} {init : List String} {last : String} :
    (∃ n, f.at? (init ++ [last]) = some n) ↔ last ∈ (f.under init).names := by
  rw [at?_concat, mem_names_iff]

/-! ### One insertion -/

/-- The nodes after an insertion: those that were there, and one at each start of the chain's relations. -/
theorem exists_at?_insert_iff (f : Forest) (c : Chain) (init : List String) (last : String) :
    (∃ n, (f.insert c).at? (init ++ [last]) = some n) ↔
      (∃ n, f.at? (init ++ [last]) = some n) ∨ init ++ [last] <+: c.relations := by
  rw [exists_at?_concat_iff, exists_at?_concat_iff, names_under_insert, mem_addField,
    Chain.nextAfter?_eq_some_iff]

/-- **Off its path an insertion changes nothing**: neither a node nor anything below it. -/
theorem at?_insert_of_not_prefix {c : Chain} {path : List String} (h : ¬ path <+: c.relations)
    (f : Forest) : (f.insert c).at? path = f.at? path := by
  rcases List.eq_nil_or_concat' path with rfl | ⟨init, last, rfl⟩
  · exact absurd List.nil_prefix h
  · rw [at?_concat, at?_concat, under_insert]
    cases hrest : c.under? init with
    | none => rfl
    | some rest =>
      have hne : last ≠ rest.head := by
        rintro rfl
        refine h (Chain.nextAfter?_eq_some_iff.1 ?_)
        rw [Chain.nextAfter?_eq, hrest, Option.map_some]
      simp only [get?_insert, if_neg hne]

section Node
variable {f : Forest} {c : Chain} {init : List String} {last : String} {n : Node}

theorem select_of_at?_insert (h : (f.insert c).at? (init ++ [last]) = some n) :
    n.select = addField (f.selectAt (init ++ [last])) (c.fieldAt? (init ++ [last])) := by
  rw [← selectAt_insert, selectAt, h, Option.elim_some]

theorem names_children_of_at?_insert (h : (f.insert c).at? (init ++ [last]) = some n) :
    n.children.names = addField (f.under (init ++ [last])).names (c.nextAfter? (init ++ [last])) := by
  rw [← names_under_insert, children_of_at? h]

end Node

/-- `after` is what has become of `before`: both are of one relation, and the fields and the names of the
children that `before` has come first in `after`, in the same order. -/
structure Grown (before after : Node) : Prop where
  relation_eq : after.relation = before.relation
  select_prefix : before.select <+: after.select
  names_prefix : before.children.names <+: after.children.names

theorem Grown.refl (n : Node) : Grown n n :=
  ⟨rfl, List.prefix_refl _, List.prefix_refl _⟩

theorem Grown.trans {n m k : Node} (h : Grown n m) (h' : Grown m k) : Grown n k :=
  ⟨h'.relation_eq.trans h.relation_eq, h.select_prefix.trans h'.select_prefix,
    h.names_prefix.trans h'.names_prefix⟩

/-- A node that is there stays, and gets the field of a chain that ends at it and the next name of a chain that
goes on from it, each at the end and only if it is new. -/
theorem exists_at?_insert_of_at? {f : Forest} {path : List String} {n : Node} (h : f.at? path = some n)
    (c : Chain) : ∃ n', (f.insert c).at? path = some n' ∧ n'.relation = n.relation ∧
      n'.select = n.select ++ added n.select (c.fieldAt? path) ∧
      n'.children.names = n.children.names ++ added n.children.names (c.nextAfter? path) := by
  rcases List.eq_nil_or_concat' path with rfl | ⟨init, last, rfl⟩
  · rw [at?_nil] at h
    cases h
  · obtain ⟨n', hn'⟩ := (exists_at?_insert_iff f c init last).2 (Or.inl ⟨n, h⟩)
    have hselect : f.selectAt (init ++ [last]) = n.select := by rw [selectAt, h, Option.elim_some]
    refine ⟨n', hn', ?_, ?_, ?_⟩
    · rw [relation_of_at? hn', relation_of_at? h]
    · rw [select_of_at?_insert hn', hselect, addField_eq_append]
    · rw [names_children_of_at?_insert hn', ← children_of_at? h, addField_eq_append]

/-- A node that is made has the field of a chain that ends at it, the next name of one that goes on from it,
and nothing else. -/
theorem of_at?_insert_of_new {f : Forest} {c : Chain} {path : List String} {n : Node}
    (hnew : f.at? path = none) (h : (f.insert c).at? path = some n) :
    n.select = (c.fieldAt? path).toList ∧ n.children.names = (c.nextAfter? path).toList := by
  rcases List.eq_nil_or_concat' path with rfl | ⟨init, last, rfl⟩
  · rw [at?_nil] at h
    cases h
  · have hselect : f.selectAt (init ++ [last]) = [] := by rw [selectAt, hnew, Option.elim_none]
    refine ⟨?_, ?_⟩
    · rw [select_of_at?_insert h, hselect, addField_eq_append, added_nil, List.nil_append]
    · rw [names_children_of_at?_insert h, under_of_at?_eq_none hnew, names, addField_eq_append, added_nil,
        List.nil_append]

/-! ### Runs of insertions -/

theorem grown_insert {f : Forest} {path : List String} {n : Node} (h : f.at? path = some n) (c : Chain) :
    ∃ n', (f.insert c).at? path = some n' ∧ Grown n n' := by
  obtain ⟨n', hn', hrelation, hselect, hnames⟩ := exists_at?_insert_of_at? h c
  exact ⟨n', hn', hrelation, hselect ▸ List.prefix_append _ _, hnames ▸ List.prefix_append _ _⟩

/-- **A run takes nothing away.** What stands at a node before a run comes first there after it. -/
theorem grown_insertAll {f : Forest} {path : List String} {n : Node} (h : f.at? path = some n)
    (es : List Expression) : ∃ n', (f.insertAll es).at? path = some n' ∧ Grown n n' := by
  induction es generalizing f n with
  | nil => exact ⟨n, h, Grown.refl n⟩
  | cons e es ih =>
    obtain ⟨m, hm, hgrown⟩ := grown_insert h e.chain
    obtain ⟨n', hn', hgrown'⟩ := ih hm
    exact ⟨n', hn', hgrown.trans hgrown'⟩

/-- **An insertion grows the forest only along its own path, and only at the end.** The names at the top get the
chain's head, if it is new. There is a node at each path where there was one, and at each start of the chain's
relations. A node that was there keeps its fields and the names of its children and gets, each at the end and
only if it is new, the field of the chain if this is where the chain ends, and the next name of the chain if it
goes on from there. A node that was not there selects just that field, and that name is its only child. At a
path that is no start of the chain's relations the node is the same, with all that is below it. So a run of
insertions leaves what was there first at each node, in the same order. -/
theorem insertion_grows_only_its_path (f : Forest) (c : Chain) :
    (f.insert c).names = f.names ++ added f.names (some c.head) ∧
    (∀ path, (∃ n, (f.insert c).at? path = some n) ↔
      (∃ n, f.at? path = some n) ∨ path ≠ [] ∧ path <+: c.relations) ∧
    (∀ path n, f.at? path = some n → ∃ n', (f.insert c).at? path = some n' ∧ n'.relation = n.relation ∧
      n'.select = n.select ++ added n.select (c.fieldAt? path) ∧
      n'.children.names = n.children.names ++ added n.children.names (c.nextAfter? path)) ∧
    (∀ path n, f.at? path = none → (f.insert c).at? path = some n →
      n.select = (c.fieldAt? path).toList ∧ n.children.names = (c.nextAfter? path).toList) ∧
    (∀ path, ¬ path <+: c.relations → (f.insert c).at? path = f.at? path) ∧
    ∀ es path n, f.at? path = some n → ∃ n', (f.insertAll es).at? path = some n' ∧ Grown n n' := by
  refine ⟨?_, fun path => ?_, fun path n h => exists_at?_insert_of_at? h c,
    fun path n hnew h => of_at?_insert_of_new hnew h, fun path h => at?_insert_of_not_prefix h f,
    fun es path n h => grown_insertAll h es⟩
  · rw [names_insert, addField_eq_append]
  · rcases List.eq_nil_or_concat' path with rfl | ⟨init, last, rfl⟩
    · simp [at?_nil]
    · rw [exists_at?_insert_iff]
      simp

/-- A chain that goes past a field and a child of its first node, and past a sibling. -/
theorem insertion_grows_only_its_path_past_a_fork :
    (∃ n', ((tree "a" ["x"] (tree "b" [] empty empty) (tree "c" [] empty empty)).insert
        (.step "a" (.last "d" (some "y")))).at? ["a"] = some n' ∧ n'.relation = "a" ∧
      n'.select = ["x"] ∧ n'.children.names = ["b", "d"]) ∧
    (∀ n, ((tree "a" ["x"] (tree "b" [] empty empty) (tree "c" [] empty empty)).insert
        (.step "a" (.last "d" (some "y")))).at? ["a", "d"] = some n →
      n.select = ["y"] ∧ n.children.names = []) ∧
    ((tree "a" ["x"] (tree "b" [] empty empty) (tree "c" [] empty empty)).insert
      (.step "a" (.last "d" (some "y")))).at? ["a", "b"] = some ⟨"b", [], empty⟩ := by
  obtain ⟨-, -, hold, hnew, hoff, -⟩ := insertion_grows_only_its_path
    (tree "a" ["x"] (tree "b" [] empty empty) (tree "c" [] empty empty)) (.step "a" (.last "d" (some "y")))
  exact ⟨hold ["a"] _ rfl, fun n h => hnew ["a", "d"] n rfl h, hoff ["a", "b"] (by decide)⟩

/-!
## Chains that a forest covers

A forest covers a chain if each relation of the chain stands where the chain goes through it, and the last
one selects the chain's field (`Covers`). Inserting a covered chain changes nothing, and a chain whose
insertion changes nothing is covered (`insert_eq_self_iff`). The chains that built a forest are covered by
it, and so are their bare starts, so it stays as it is however often any of these are inserted again
(`covered_insertions_change_nothing`).
-/

/-- Each start of the chain's relations leads to a node, and the last of these nodes selects the field. -/
structure Covers (f : Forest) (c : Chain) : Prop where
  node_of_start : ∀ path, path ≠ [] → path <+: c.relations → ∃ n, f.at? path = some n
  selects_field : ∀ field, c.field = some field →
    ∃ n, f.at? c.relations = some n ∧ field ∈ n.select

/-! ### What each part of a forest covers -/

theorem not_covers_empty (c : Chain) : ¬ empty.Covers c := by
  intro h
  obtain ⟨n, hn⟩ := h.node_of_start c.relations c.relations_ne_nil (List.prefix_refl _)
  obtain ⟨rest, hrest⟩ := c.relations_eq_cons
  rw [hrest] at hn
  cases mem_names_of_at? hn

/-- Only what stands along the chain decides whether it is covered. -/
theorem Covers.congr {f g : Forest} {c : Chain} (h : f.Covers c)
    (hsame : ∀ path, path ≠ [] → path <+: c.relations → f.at? path = g.at? path) : g.Covers c := by
  constructor
  · intro path hne hpath
    rw [← hsame path hne hpath]
    exact h.node_of_start path hne hpath
  · intro field hfield
    rw [← hsame c.relations c.relations_ne_nil (List.prefix_refl _)]
    exact h.selects_field field hfield

section Tree
variable {relation : String} (select : List String) (children siblings : Forest)

theorem covers_tree_last (field : Option String) :
    (tree relation select children siblings).Covers (.last relation field) ↔
      ∀ x, field = some x → x ∈ select := by
  have hroot := at?_tree_root relation select children siblings
  constructor
  · intro h x hx
    obtain ⟨n, hn, hmem⟩ := h.selects_field x hx
    rw [Chain.relations, hroot] at hn
    cases hn
    exact hmem
  · intro h
    refine ⟨?_, fun x hx => ⟨_, hroot, h x hx⟩⟩
    intro path hne hpath
    rw [Chain.relations, List.prefix_cons_iff] at hpath
    rcases hpath with rfl | ⟨below, rfl, hbelow⟩
    · exact absurd rfl hne
    · rw [List.prefix_nil.1 hbelow]
      exact ⟨_, hroot⟩

theorem covers_tree_step (rest : Chain) :
    (tree relation select children siblings).Covers (.step relation rest) ↔ children.Covers rest := by
  have hbelow : ∀ path, path ≠ [] →
      (tree relation select children siblings).at? (relation :: path) = children.at? path :=
    fun path hne => at?_tree_self relation select children siblings hne
  have hrest : rest.relations ≠ [] := rest.relations_ne_nil
  constructor
  · intro h
    constructor
    · intro path hne hpath
      rw [← hbelow path hne]
      refine h.node_of_start (relation :: path) (by simp) ?_
      rw [Chain.relations, List.cons_prefix_cons]
      exact ⟨rfl, hpath⟩
    · intro field hfield
      rw [← hbelow rest.relations hrest]
      exact h.selects_field field hfield
  · intro h
    constructor
    · intro path hne hpath
      rw [Chain.relations, List.prefix_cons_iff] at hpath
      rcases hpath with rfl | ⟨below, rfl, hpath⟩
      · exact absurd rfl hne
      · by_cases hnil : below = []
        · subst hnil
          exact ⟨_, at?_tree_root relation select children siblings⟩
        · rw [hbelow below hnil]
          exact h.node_of_start below hnil hpath
    · intro field hfield
      rw [Chain.relations, hbelow rest.relations hrest]
      exact h.selects_field field hfield

theorem covers_tree_of_ne {c : Chain} (h : c.head ≠ relation) :
    (tree relation select children siblings).Covers c ↔ siblings.Covers c := by
  obtain ⟨rest, hrest⟩ := c.relations_eq_cons
  have hpast : ∀ path, path ≠ [] → path <+: c.relations →
      (tree relation select children siblings).at? path = siblings.at? path := by
    intro path hne hpath
    rw [hrest, List.prefix_cons_iff] at hpath
    rcases hpath with rfl | ⟨below, rfl, -⟩
    · exact absurd rfl hne
    · exact at?_tree_of_ne _ _ _ h.symm _
  constructor
  · intro hc
    exact hc.congr hpast
  · intro hc
    exact hc.congr fun path hne hpath => (hpast path hne hpath).symm

end Tree

/-! ### Insertions that change nothing -/

theorem addField_eq_self_iff {select : List String} {field : Option String} :
    addField select field = select ↔ ∀ x, field = some x → x ∈ select := by
  cases field with
  | none => simp [addField]
  | some x => by_cases h : x ∈ select <;> simp [addField, h]

/-- **One insertion changes nothing exactly where the chain is covered.** -/
theorem insert_eq_self_iff (f : Forest) (c : Chain) : f.insert c = f ↔ f.Covers c := by
  fun_induction insert f c with
  | case1 c =>
    refine iff_of_false ?_ (not_covers_empty c)
    cases c <;> simp [ofChain]
  | case2 select children siblings relation field =>
    simp only [Chain.head, covers_tree_last, ← addField_eq_self_iff, tree.injEq, true_and, and_true]
  | case3 select children siblings relation rest ih =>
    simp only [Chain.head, covers_tree_step, ← ih, tree.injEq, true_and, and_true]
  | case4 relation select children siblings c hne ih =>
    simp only [covers_tree_of_ne _ _ _ hne, ← ih, tree.injEq, true_and]

/-- A run of covered chains changes nothing: none of them makes another one uncovered. -/
theorem insertChains_eq_self {f : Forest} {cs : List Chain} (h : ∀ c ∈ cs, f.Covers c) :
    f.insertChains cs = f := by
  induction cs with
  | nil => rfl
  | cons c cs ih =>
    rw [List.forall_mem_cons] at h
    rw [insertChains_cons, (insert_eq_self_iff f c).2 h.1, ih h.2]

/-! ### What the chains of a forest cover -/

/-- A bare chain is covered with every chain that it is a start of. -/
theorem Covers.of_start {f : Forest} {c d : Chain} (h : f.Covers d) (hbare : c.field = none)
    (hpath : c.relations <+: d.relations) : f.Covers c := by
  refine ⟨fun path hne hp => h.node_of_start path hne (hp.trans hpath), ?_⟩
  intro field hfield
  rw [hbare] at hfield
  cases hfield

theorem covers_of_mem {es : List Expression} {e : Expression} (he : e ∈ es) :
    (ofExpressions es).Covers e.chain := by
  have hnode : ∀ path, path ≠ [] → path <+: e.chain.relations →
      ∃ n, (ofExpressions es).at? path = some n := by
    intro path hne hpath
    rcases List.eq_nil_or_concat' path with rfl | ⟨init, last, rfl⟩
    · exact absurd rfl hne
    · exact (exists_at?_ofExpressions es init last).2 ⟨e, he, hpath⟩
  refine ⟨hnode, fun field hfield => ?_⟩
  obtain ⟨n, hn⟩ := hnode e.chain.relations e.chain.relations_ne_nil (List.prefix_refl _)
  exact ⟨n, hn, (mem_select_iff hn).2 ⟨e, he, rfl, hfield⟩⟩

/-- **What is covered can be inserted without effect, and nothing else.** An insertion leaves a forest as it
is if and only if each start of the chain's relations already leads to a node, and the node that the whole
chain leads to already selects the chain's field. So a forest of expressions stays as it is, with its
descriptors and its canonical text, when any of these expressions and any bare starts of them are inserted
again, in any order and any number of times. -/
theorem covered_insertions_change_nothing :
    (∀ (f : Forest) (c : Chain), f.insert c = f ↔
      (∀ path, path ≠ [] → path <+: c.relations → ∃ n, f.at? path = some n) ∧
      ∀ field, c.field = some field → ∃ n, f.at? c.relations = some n ∧ field ∈ n.select) ∧
    ∀ es more : List Expression,
      (∀ e ∈ more, ∃ d ∈ es, e.chain = d.chain ∨
        e.chain.field = none ∧ e.chain.relations <+: d.chain.relations) →
      (ofExpressions es).insertAll more = ofExpressions es ∧
      ((ofExpressions es).insertAll more).descriptors = (ofExpressions es).descriptors ∧
      ((ofExpressions es).insertAll more).render = (ofExpressions es).render := by
  constructor
  · intro f c
    rw [insert_eq_self_iff]
    exact ⟨fun h => ⟨h.node_of_start, h.selects_field⟩, fun h => ⟨h.1, h.2⟩⟩
  · intro es more hmore
    have hsame : (ofExpressions es).insertAll more = ofExpressions es := by
      rw [insertAll_eq_insertChains]
      refine insertChains_eq_self fun c hc => ?_
      obtain ⟨e, he, rfl⟩ := List.mem_map.1 hc
      obtain ⟨d, hd, hsame | ⟨hbare, hpath⟩⟩ := hmore e he
      · rw [hsame]
        exact covers_of_mem hd
      · exact (covers_of_mem hd).of_start hbare hpath
    rw [hsame]
    exact ⟨rfl, rfl, rfl⟩

/-- A chain with a field and its bare start, inserted again behind another chain; and a field that is new at
a node that is there. -/
theorem covered_insertions_change_nothing_again :
    (ofExpressions [⟨"a:b.x", .step "a" (.last "b" (some "x"))⟩, ⟨"c", .last "c" none⟩]).insertAll
        [⟨"a", .last "a" none⟩, ⟨"a:b.x", .step "a" (.last "b" (some "x"))⟩, ⟨"a", .last "a" none⟩] =
      ofExpressions [⟨"a:b.x", .step "a" (.last "b" (some "x"))⟩, ⟨"c", .last "c" none⟩] ∧
    (tree "a" ["x"] empty empty).insert (.last "a" (some "y")) ≠ tree "a" ["x"] empty empty := by
  refine ⟨(covered_insertions_change_nothing.2 _ _ ?_).1, fun h => ?_⟩
  · decide
  · obtain ⟨n, hn, hmem⟩ := ((covered_insertions_change_nothing.1 _ _).1 h).2 "y" rfl
    cases hn
    exact absurd hmem (by decide)

end Forest

end PopulateQuery
