import PopulateQuery.Proofs.Expression.Writing
import PopulateQuery.Proofs.Forest.Paths

/-!
# Forests that insertions lead to

Their names and fields are distinct, and such forests are equal if they look alike along their paths.
-/

namespace PopulateQuery

/-!
## Distinct names and fields

Merging never puts a name twice on one level nor a field twice in one selection
(`distinct_insert`), so no forest of expressions has one there (`distinct_ofExpressions`). What a path
leads to is one of the forest's nodes (`mem_preorder_of_at?`).
-/

namespace Forest

/-- No name stands twice on one level, and no field twice in one selection, at any depth. -/
def Distinct : Forest → Prop
  | empty => True
  | tree relation select children siblings =>
    relation ∉ siblings.names ∧ select.Nodup ∧ children.Distinct ∧ siblings.Distinct

/-! ### Names and fields stay distinct -/

theorem distinct_ofChain (c : Chain) : (ofChain c).Distinct := by
  induction c with
  | last relation field => cases field <;> simp [ofChain, Distinct, names]
  | step relation rest ih => simp [ofChain, Distinct, names, ih]

theorem distinct_insert {f : Forest} (h : f.Distinct) (c : Chain) : (f.insert c).Distinct := by
  fun_induction insert f c with
  | case1 c => exact distinct_ofChain c
  | case2 select children siblings relation field =>
    obtain ⟨hname, hselect, hchildren, hsiblings⟩ := h
    exact ⟨hname, nodup_addField hselect field, hchildren, hsiblings⟩
  | case3 select children siblings relation rest ih =>
    obtain ⟨hname, hselect, hchildren, hsiblings⟩ := h
    exact ⟨hname, hselect, ih hchildren, hsiblings⟩
  | case4 relation select children siblings c hne ih =>
    obtain ⟨hname, hselect, hchildren, hsiblings⟩ := h
    refine ⟨?_, hselect, hchildren, ih hsiblings⟩
    rw [names_insert, mem_addField]
    rintro (hmem | hhead)
    · exact hname hmem
    · exact hne (Option.some.inj hhead)

theorem distinct_insertChains {f : Forest} (h : f.Distinct) (cs : List Chain) :
    (f.insertChains cs).Distinct := by
  induction cs generalizing f with
  | nil => exact h
  | cons c cs ih => exact ih (distinct_insert h c)

theorem distinct_ofExpressions (es : List Expression) : (ofExpressions es).Distinct := by
  rw [ofExpressions_eq_insertChains]
  exact distinct_insertChains (f := empty) trivial _

/-! ### On one level and at one node -/

theorem Distinct.nodup_names {f : Forest} (h : f.Distinct) : f.names.Nodup := by
  induction f with
  | empty => exact List.nodup_nil
  | tree relation select children siblings _ ih => exact List.nodup_cons.2 ⟨h.1, ih h.2.2.2⟩

theorem Distinct.nodup_select {f : Forest} (h : f.Distinct) : ∀ n ∈ f.preorder, n.select.Nodup := by
  induction f with
  | empty => simp [preorder]
  | tree relation select children siblings ihc ihs =>
    obtain ⟨-, hselect, hchildren, hsiblings⟩ := h
    rw [preorder, List.forall_mem_cons, List.forall_mem_append]
    exact ⟨hselect, ihc hchildren, ihs hsiblings⟩

theorem Distinct.children {f : Forest} (h : f.Distinct) {n : Node} (hn : n ∈ f.preorder) :
    n.children.Distinct := by
  induction f with
  | empty => cases hn
  | tree relation select children siblings ihc ihs =>
    obtain ⟨-, -, hchildren, hsiblings⟩ := h
    rw [preorder, List.mem_cons, List.mem_append] at hn
    rcases hn with rfl | hn | hn
    · exact hchildren
    · exact ihc hchildren hn
    · exact ihs hsiblings hn

/-! ### Nodes and paths -/

theorem mem_preorder_of_get? {f : Forest} {name : String} {n : Node} (h : f.get? name = some n) :
    n ∈ f.preorder ∧ n.children.preorder ⊆ f.preorder := by
  induction f with
  | empty => cases h
  | tree relation select children siblings _ ih =>
    rw [get?] at h
    split at h
    · cases h
      simp [preorder]
    · obtain ⟨hmem, hsub⟩ := ih h
      have hlater : siblings.preorder ⊆ (tree relation select children siblings).preorder := by
        simp [preorder]
      exact ⟨hlater hmem, fun m hm => hlater (hsub hm)⟩

theorem mem_preorder_of_at? {path : List String} :
    ∀ {f : Forest} {n : Node}, f.at? path = some n → n ∈ f.preorder := by
  induction path with
  | nil =>
    intro f n h
    cases f <;> cases h
  | cons name path ih =>
    intro f n h
    by_cases hp : path = []
    · subst hp
      exact (mem_preorder_of_get? h).1
    · rw [at?_cons f name hp] at h
      obtain ⟨m, hm, hn⟩ := Option.bind_eq_some_iff.1 h
      exact (mem_preorder_of_get? hm).2 (ih hn)

theorem mem_names_of_at? {f : Forest} {name : String} {path : List String} {n : Node}
    (h : f.at? (name :: path) = some n) : name ∈ f.names := by
  rw [mem_names_iff]
  cases path with
  | nil => exact ⟨n, h⟩
  | cons next path =>
    obtain ⟨m, hm, -⟩ := Option.bind_eq_some_iff.1 h
    exact ⟨m, hm⟩

/-- Its own name leads to the root of a tree. -/
theorem at?_tree_root (relation : String) (select : List String) (children siblings : Forest) :
    (tree relation select children siblings).at? [relation] = some ⟨relation, select, children⟩ := by
  simp [at?, get?]

/-- Past its own name a path into a tree goes on below it. -/
theorem at?_tree_self (relation : String) (select : List String) (children siblings : Forest)
    {path : List String} (h : path ≠ []) :
    (tree relation select children siblings).at? (relation :: path) = children.at? path := by
  simp [at?_cons _ _ h, get?]

/-- In front of its siblings a tree hides no other name. -/
theorem at?_tree_of_ne {relation name : String} (select : List String) (children siblings : Forest)
    (h : relation ≠ name) (path : List String) :
    (tree relation select children siblings).at? (name :: path) = siblings.at? (name :: path) := by
  cases path <;> simp [at?, get?, h]

/-!
## Reachable forests

`Reachable f` — insertions of expressions that were read lead from nothing to `f`. In such a forest
no name stands twice beside another and no field is selected twice (`Reachable.distinct`), and every
relation and every field is one that can be written down (`Reachable.each`).
-/

/-- The forests that insertions lead to, each of an expression that was read. -/
inductive Reachable : Forest → Prop where
  | start : Reachable empty
  | insert {f : Forest} {text : String} {e : Expression} : Reachable f →
    Expression.read text = .ok e → Reachable (f.insert e.chain)

/-! ### Names and fields -/

theorem Reachable.distinct {f : Forest} (h : f.Reachable) : f.Distinct := by
  induction h with
  | start => trivial
  | insert _ _ ih => exact distinct_insert ih _

theorem Reachable.each {f : Forest} (h : f.Reachable) : f.Each IsName IsField := by
  induction h with
  | start => exact each_empty
  | insert _ hread ih => exact (each_insert _ _).2 ⟨ih, Expression.each_of_read hread⟩

/-! ### Runs -/

theorem Reachable.insertAll {f : Forest} (h : f.Reachable) {es : List Expression}
    (hes : ∀ e ∈ es, ∃ text, Expression.read text = .ok e) : (f.insertAll es).Reachable := by
  induction es generalizing f with
  | nil => exact h
  | cons e es ih =>
    rw [List.forall_mem_cons] at hes
    obtain ⟨⟨text, hread⟩, hrest⟩ := hes
    exact ih (h.insert hread) hrest

/-!
## Forests that look alike

A forest with distinct names and fields is determined by what stands along its paths: the names below
each path, and the fields selected at it (`eq_of_alike`). What stands along a path after a run of
insertions depends on the chains only through the forest that they make alone. So runs that make equal
forests from nothing have the same effect on every forest (`insertChains_congr`).
-/

/-- The same names stand below every path, and the same fields are selected at it, in the same order. -/
structure Alike (f g : Forest) : Prop where
  names_under : ∀ path, (f.under path).names = (g.under path).names
  selectAt : ∀ path, f.selectAt path = g.selectAt path

/-! ### Distinct along paths -/

theorem Distinct.childrenOf {f : Forest} (h : f.Distinct) (name : String) :
    (f.childrenOf name).Distinct := by
  rw [Forest.childrenOf]
  cases hn : f.get? name with
  | none => trivial
  | some n => exact h.children (mem_preorder_of_get? hn).1

theorem Distinct.under {f : Forest} (h : f.Distinct) (path : List String) : (f.under path).Distinct := by
  induction path generalizing f with
  | nil => exact h
  | cons name path ih => exact ih (h.childrenOf name)

theorem Distinct.nodup_selectAt {f : Forest} (h : f.Distinct) (path : List String) :
    (f.selectAt path).Nodup := by
  rw [Forest.selectAt]
  cases hn : f.at? path with
  | none => exact List.nodup_nil
  | some n => exact h.nodup_select n (mem_preorder_of_at? hn)

/-! ### Along paths into a tree and past it -/

section Tree
variable {relation : String} (select : List String) (children siblings : Forest)

theorem under_tree_self (path : List String) :
    (tree relation select children siblings).under (relation :: path) = children.under path := by
  simp [under, childrenOf, get?]

theorem under_tree_of_ne {name : String} (h : relation ≠ name) (path : List String) :
    (tree relation select children siblings).under (name :: path) = siblings.under (name :: path) := by
  simp [under, childrenOf, get?, h]

theorem selectAt_tree_self {path : List String} (h : path ≠ []) :
    (tree relation select children siblings).selectAt (relation :: path) = children.selectAt path := by
  rw [selectAt, at?_tree_self _ _ _ _ h, selectAt]

theorem selectAt_tree_of_ne {name : String} (h : relation ≠ name) (path : List String) :
    (tree relation select children siblings).selectAt (name :: path) =
      siblings.selectAt (name :: path) := by
  rw [selectAt, at?_tree_of_ne select children siblings h, selectAt]

end Tree

theorem under_of_not_mem {f : Forest} {name : String} (h : name ∉ f.names) (path : List String) :
    f.under (name :: path) = empty := by
  have hget : f.get? name = none := by
    cases hn : f.get? name with
    | none => rfl
    | some n => exact absurd (mem_names_iff.2 ⟨n, hn⟩) h
  rw [under, childrenOf, hget, Option.elim_none, under_empty]

theorem selectAt_of_not_mem {f : Forest} {name : String} (h : name ∉ f.names) (path : List String) :
    f.selectAt (name :: path) = [] := by
  rw [selectAt]
  cases hn : f.at? (name :: path) with
  | none => rfl
  | some n => exact absurd (mem_names_of_at? hn) h

/-! ### Looking alike is being equal -/

section Parts
variable {relation : String} {select select' : List String} {children children' siblings siblings' : Forest}

theorem Alike.select_eq (h : (tree relation select children siblings).Alike
    (tree relation select' children' siblings')) : select = select' := by
  have hselect := h.selectAt [relation]
  simpa [Forest.selectAt, at?, get?] using hselect

theorem Alike.children_alike (h : (tree relation select children siblings).Alike
    (tree relation select' children' siblings')) : children.Alike children' := by
  refine ⟨fun path => ?_, fun path => ?_⟩
  · have hnames := h.names_under (relation :: path)
    rwa [under_tree_self, under_tree_self] at hnames
  · by_cases hp : path = []
    · rw [hp, selectAt_nil, selectAt_nil]
    · have hselect := h.selectAt (relation :: path)
      rwa [selectAt_tree_self _ _ _ hp, selectAt_tree_self _ _ _ hp] at hselect

/-- Siblings look alike too: the first tree hides nothing of them, because its name is not among
theirs. -/
theorem Alike.siblings_alike (hnew : relation ∉ siblings.names) (hnew' : relation ∉ siblings'.names)
    (h : (tree relation select children siblings).Alike (tree relation select' children' siblings')) :
    siblings.Alike siblings' := by
  have htop : siblings.names = siblings'.names := List.tail_eq_of_cons_eq (h.names_under [])
  refine ⟨fun path => ?_, fun path => ?_⟩
  · cases path with
    | nil => exact htop
    | cons name path =>
      by_cases hne : relation = name
      · subst hne
        rw [under_of_not_mem hnew, under_of_not_mem hnew']
      · have hnames := h.names_under (name :: path)
        rwa [under_tree_of_ne _ _ _ hne, under_tree_of_ne _ _ _ hne] at hnames
  · cases path with
    | nil => rw [selectAt_nil, selectAt_nil]
    | cons name path =>
      by_cases hne : relation = name
      · subst hne
        rw [selectAt_of_not_mem hnew, selectAt_of_not_mem hnew']
      · have hselect := h.selectAt (name :: path)
        rwa [selectAt_tree_of_ne _ _ _ hne, selectAt_tree_of_ne _ _ _ hne] at hselect

end Parts

/-- **Forests that look alike are equal.** -/
theorem eq_of_alike {f g : Forest} (hf : f.Distinct) (hg : g.Distinct) (h : f.Alike g) : f = g := by
  induction f generalizing g with
  | empty =>
    have hnames := h.names_under []
    cases g with
    | empty => rfl
    | tree => cases hnames
  | tree relation select children siblings ihc ihs =>
    have hnames := h.names_under []
    cases g with
    | empty => cases hnames
    | tree relation' select' children' siblings' =>
      obtain rfl : relation = relation' := List.head_eq_of_cons_eq hnames
      obtain ⟨hnew, -, hchildren, hsiblings⟩ := hf
      obtain ⟨hnew', -, hchildren', hsiblings'⟩ := hg
      rw [h.select_eq, ihc hchildren hchildren' h.children_alike,
        ihs hsiblings hsiblings' (h.siblings_alike hnew hnew')]

/-! ### Runs with the same effect -/

/-- **Merging is a congruence.** Chains that make the same forest from nothing have the same effect on
every forest. -/
theorem insertChains_congr {f : Forest} (hf : f.Distinct) {cs cs' : List Chain}
    (h : empty.insertChains cs = empty.insertChains cs') : f.insertChains cs = f.insertChains cs' := by
  have hcs := distinct_insertChains hf cs
  have hcs' := distinct_insertChains hf cs'
  refine eq_of_alike hcs hcs' ⟨fun path => ?_, fun path => ?_⟩
  · exact insertChains_view_congr (fun g => (g.under path).names) _ (names_under_insert path)
      (names_under_empty path) (hf.under path).nodup_names (congrArg (fun g => (g.under path).names) h)
  · rcases List.eq_nil_or_concat' path with rfl | ⟨init, last, rfl⟩
    · rw [selectAt_nil, selectAt_nil]
    · exact insertChains_view_congr (fun g => g.selectAt (init ++ [last])) _ (selectAt_insert init last)
        (selectAt_empty _) (hf.nodup_selectAt _) (congrArg (fun g => g.selectAt (init ++ [last])) h)

end Forest

end PopulateQuery
