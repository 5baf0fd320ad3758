import PopulateQuery.Forest
import PopulateQuery.Proofs.Expression.Chains

/-!
# Insertions into a forest

What one insertion does (`insert_segments` there) and, by induction, what a run of insertions does: to all nodes,
and to what stands along a path.
-/

namespace PopulateQuery

/-!
## Runs of insertions

A forest is built by inserting one chain after the other (`insertChains`). Adding to a list what it
does not hold yet, over and over, gives all that was added in the order in which it was first seen:
`List.eraseDups` of the whole sequence. So a part of a forest that every insertion adds to in this
way is, after a run, what the chains of the run contributed, in first-seen order
(`insertChains_firstSeen`). Two runs that contribute the same to nothing contribute the same to every
forest (`insertChains_view_congr`).
-/

namespace Forest

/-! ### One insertion -/

section One
variable {relation : String} (select : List String) (children siblings : Forest)

theorem insert_of_ne {c : Chain} (h : c.head ≠ relation) :
    (tree relation select children siblings).insert c =
      tree relation select children (siblings.insert c) := by
  cases c <;> exact if_neg h

theorem insert_last (field : Option String) :
    (tree relation select children siblings).insert (.last relation field) =
      tree relation (addField select field) children siblings := by
  simp [insert, Chain.head]

theorem insert_step (rest : Chain) :
    (tree relation select children siblings).insert (.step relation rest) =
      tree relation select (children.insert rest) siblings := by
  simp [insert, Chain.head]

end One

/-! ### One insertion after the other -/

def insertChains (f : Forest) (cs : List Chain) : Forest := cs.foldl insert f

@[simp] theorem insertChains_nil (f : Forest) : f.insertChains [] = f := rfl

@[simp] theorem insertChains_cons (f : Forest) (c : Chain) (cs : List Chain) :
    f.insertChains (c :: cs) = (f.insert c).insertChains cs := rfl

theorem insertChains_append (f : Forest) (cs cs' : List Chain) :
    f.insertChains (cs ++ cs') = (f.insertChains cs).insertChains cs' := List.foldl_append

theorem insertAll_eq_insertChains (f : Forest) (es : List Expression) :
    f.insertAll es = f.insertChains (es.map Expression.chain) := List.foldl_map.symm

theorem ofExpressions_eq_insertChains (es : List Expression) :
    ofExpressions es = empty.insertChains (es.map Expression.chain) := insertAll_eq_insertChains empty es

/-! ### First-seen order -/

theorem addField_eraseDups (seen : List String) (o : Option String) :
    addField seen.eraseDups o = (seen ++ o.toList).eraseDups := by
  cases o with
  | none => simp [addField]
  | some a =>
    rw [Option.toList_some, List.eraseDups_append]
    by_cases h : a ∈ seen
    · simp [addField, h, List.removeAll]
    · simp [addField, h, List.removeAll, List.eraseDups_cons]

theorem eraseDups_of_nodup : ∀ {as : List String}, as.Nodup → as.eraseDups = as
  | [], _ => rfl
  | a :: as, h => by
    obtain ⟨hnew, hrest⟩ := List.nodup_cons.1 h
    have hkept : as.filter (fun b => !b == a) = as := by
      rw [List.filter_eq_self]
      intro b hb
      have hne : b ≠ a := fun e => hnew (e ▸ hb)
      simpa using hne
    rw [List.eraseDups_cons, hkept, eraseDups_of_nodup hrest]

theorem nodup_eraseDups : ∀ as : List String, as.eraseDups.Nodup
  | [] => List.nodup_nil
  | a :: as => by
    have hshort : (as.filter fun b => !b == a).length ≤ as.length := List.length_filter_le _ as
    rw [List.eraseDups_cons, List.nodup_cons, List.mem_eraseDups]
    exact ⟨by simp, nodup_eraseDups _⟩
termination_by as => as.length

/-- What is left out takes no place from the rest. -/
theorem eraseDups_filter (p : String → Bool) : ∀ as : List String,
    (as.filter p).eraseDups = as.eraseDups.filter p
  | [] => rfl
  | a :: as => by
    have hshort : (as.filter fun b => !b == a).length ≤ as.length := List.length_filter_le _ as
    have ih := eraseDups_filter p (as.filter fun b => !b == a)
    by_cases h : p a
    · have hswap : (as.filter p).filter (fun b => !b == a) = (as.filter fun b => !b == a).filter p := by
        simp only [List.filter_filter, Bool.and_comm]
      rw [List.filter_cons_of_pos h, List.eraseDups_cons, List.eraseDups_cons,
        List.filter_cons_of_pos h, hswap, ih]
    · have hsame : (as.filter fun b => !b == a).filter p = as.filter p := by
        rw [List.filter_filter]
        refine List.filter_congr fun b _ => ?_
        by_cases hb : b = a
        · simp [hb, h]
        · simp [hb]
      rw [List.filter_cons_of_neg h, List.eraseDups_cons, List.filter_cons_of_neg h, ← ih, hsame]
termination_by as => as.length

/-- After what was seen before, the first-seen order of two lists agrees if it does without that. -/
theorem eraseDups_append_congr {as bs : List String} (seen : List String)
    (h : as.eraseDups = bs.eraseDups) : (seen ++ as).eraseDups = (seen ++ bs).eraseDups := by
  rw [List.eraseDups_append, List.eraseDups_append, List.removeAll, List.removeAll, eraseDups_filter,
    eraseDups_filter, h]

theorem mem_addField {seen : List String} {o : Option String} {a : String} :
    a ∈ addField seen o ↔ a ∈ seen ∨ o = some a := by
  cases o with
  | none => simp [addField]
  | some b =>
    by_cases h : b ∈ seen
    · simp only [addField, h, ↓reduceIte, Option.some.injEq]
      exact ⟨Or.inl, fun h' => h'.elim id fun e => e ▸ h⟩
    · simp [addField, h, eq_comm]

theorem nodup_addField {seen : List String} (h : seen.Nodup) (o : Option String) :
    (addField seen o).Nodup := by
  cases o with
  | none => exact h
  | some b =>
    by_cases hb : b ∈ seen
    · simpa [addField, hb] using h
    · simp only [addField, hb, ↓reduceIte]
      refine List.nodup_append.2 ⟨h, by simp, fun a ha c hc => ?_⟩
      rintro rfl
      exact hb (List.mem_singleton.1 hc ▸ ha)

variable (view : Forest → List String) (key : Chain → Option String)

/-- A part of the forest that every insertion adds to holds, after a run, what it held before and
what the chains of the run contribute, in first-seen order. -/
theorem insertChains_firstSeen (hstep : ∀ f c, view (f.insert c) = addField (view f) (key c)) :
    ∀ (cs : List Chain) (f : Forest) (seen : List String), view f = seen.eraseDups →
      view (f.insertChains cs) = (seen ++ cs.filterMap key).eraseDups
  | [], f, seen, h => by simpa using h
  | c :: cs, f, seen, h => by
    have hnext : view (f.insert c) = (seen ++ (key c).toList).eraseDups := by
      rw [hstep, h, addField_eraseDups]
    rw [insertChains_cons, insertChains_firstSeen hstep cs _ _ hnext, List.append_assoc]
    cases hk : key c <;> simp [hk]

/-- After a run such a part of the forest depends on what it held before, and on what the run would
have made of it from nothing. -/
theorem insertChains_view_congr (hstep : ∀ f c, view (f.insert c) = addField (view f) (key c))
    (hempty : view empty = []) {f : Forest} (hf : (view f).Nodup) {cs cs' : List Chain}
    (h : view (empty.insertChains cs) = view (empty.insertChains cs')) :
    view (f.insertChains cs) = view (f.insertChains cs') := by
  have hrun := fun cs => insertChains_firstSeen view key hstep cs f _ (eraseDups_of_nodup hf).symm
  have hfresh := fun cs => insertChains_firstSeen view key hstep cs empty [] hempty
  rw [hfresh, hfresh, List.nil_append, List.nil_append] at h
  rw [hrun, hrun, eraseDups_append_congr _ h]

theorem ofExpressions_firstSeen (hstep : ∀ f c, view (f.insert c) = addField (view f) (key c))
    (hempty : view empty = []) (es : List Expression) :
    view (ofExpressions es) = (es.filterMap fun e => key e.chain).eraseDups := by
  have hrun := insertChains_firstSeen view key hstep (es.map Expression.chain) empty [] hempty
  rw [ofExpressions_eq_insertChains, hrun, List.nil_append, List.filterMap_map]
  rfl

end Forest

/-!
## All nodes of a forest

What holds of every relation and of every selected field of a forest, at any depth, is what holds of
every relation and every field of the chains that were merged into it (`each_insert`,
`each_ofExpressions`). Its depth is that of its longest chain (`depth_insert`).
-/

namespace Forest

/-- The nodes at all depths: each before the nodes below it, and these before its later siblings. -/
def preorder : Forest → List Node
  | empty => []
  | tree relation select children siblings =>
    ⟨relation, select, children⟩ :: (children.preorder ++ siblings.preorder)

/-- All relations of the forest satisfy `P`, and all selected fields `Q`, at any depth. -/
def Each (P Q : String → Prop) (f : Forest) : Prop :=
  ∀ n ∈ f.preorder, P n.relation ∧ ∀ field ∈ n.select, Q field

/-- No relation and no selected field of the forest has the mark in it, at any depth. -/
def Lacks (mark : Char) (f : Forest) : Prop := f.Each (mark ∉ ·.toList) (mark ∉ ·.toList)

variable {P Q : String → Prop}

theorem each_empty : empty.Each P Q := by
  simp [Each, preorder]

theorem each_tree {relation : String} {select : List String} {children siblings : Forest} :
    (tree relation select children siblings).Each P Q ↔
      (P relation ∧ ∀ field ∈ select, Q field) ∧ children.Each P Q ∧ siblings.Each P Q := by
  unfold Each
  rw [preorder, List.forall_mem_cons, List.forall_mem_append]

theorem each_ofChain (c : Chain) : (ofChain c).Each P Q ↔ c.Each P Q := by
  induction c with
  | last relation field =>
    simp [ofChain, each_tree, each_empty, Chain.each_last]
  | step relation rest ih =>
    simp [ofChain, each_tree, each_empty, ih, Chain.each_step]

theorem forall_mem_addField {select : List String} {field : Option String} :
    (∀ x ∈ addField select field, Q x) ↔ (∀ x ∈ select, Q x) ∧ ∀ x ∈ field, Q x := by
  simp only [mem_addField, or_imp, forall_and]
  rfl

/-- One insertion: what holds throughout afterwards held before, and holds of the chain. -/
theorem each_insert (f : Forest) (c : Chain) : (f.insert c).Each P Q ↔ f.Each P Q ∧ c.Each P Q := by
  fun_induction insert f c with
  | case1 c => simp [each_ofChain, each_empty]
  | case2 select children siblings relation field =>
    simp only [Chain.head, each_tree, forall_mem_addField, Chain.each_last]
    grind
  | case3 select children siblings relation rest ih =>
    simp only [Chain.head, each_tree, ih, Chain.each_step]
    grind
  | case4 relation select children siblings c hne ih =>
    simp only [each_tree, ih]
    grind

/-- A run: what holds throughout afterwards held before, and holds of all chains. -/
theorem each_insertChains (cs : List Chain) (f : Forest) :
    (f.insertChains cs).Each P Q ↔ f.Each P Q ∧ ∀ c ∈ cs, c.Each P Q := by
  induction cs generalizing f with
  | nil => simp
  | cons c cs ih => rw [insertChains_cons, ih, each_insert, List.forall_mem_cons, and_assoc]

theorem each_ofExpressions (es : List Expression) :
    (ofExpressions es).Each P Q ↔ ∀ e ∈ es, e.chain.Each P Q := by
  rw [ofExpressions_eq_insertChains, each_insertChains, List.forall_mem_map]
  exact and_iff_right each_empty

/-! ### Depth -/

theorem depth_insert (f : Forest) (c : Chain) : (f.insert c).depth = max f.depth c.length := by
  fun_induction insert f c with
  | case1 c => simp [depth]
  | case2 select children siblings relation field =>
    simp only [depth, Chain.length]
    omega
  | case3 select children siblings relation rest ih =>
    simp only [depth, Chain.length, ih]
    omega
  | case4 relation select children siblings c hne ih =>
    simp only [depth, ih]
    omega

theorem depth_insertChains_le_iff (cs : List Chain) (f : Forest) (m : Nat) :
    (f.insertChains cs).depth ≤ m ↔ f.depth ≤ m ∧ ∀ c ∈ cs, c.length ≤ m := by
  induction cs generalizing f with
  | nil => simp
  | cons c cs ih =>
    rw [insertChains_cons, ih, depth_insert, List.forall_mem_cons, Nat.max_le, and_assoc]

theorem depth_ofExpressions_le_iff (es : List Expression) (m : Nat) :
    (ofExpressions es).depth ≤ m ↔ ∀ e ∈ es, e.chain.length ≤ m := by
  rw [ofExpressions_eq_insertChains, depth_insertChains_le_iff, List.forall_mem_map]
  exact and_iff_right (Nat.zero_le m)

end Forest

/-!
## Forests along a path

One insertion looks up its head at the top level, or makes it, and lets that node grow
(`names_insert`, `get?_insert`). So below every path the forest either takes in what is left of the
chain there, or stays as it is (`under_insert`). What stands at a path follows from these: the names
below it (`names_under_insert`) and the fields selected at it (`selectAt_insert`).
-/

namespace Node

/-- A node as it is made: it selects no field and has nothing below it. -/
def fresh (name : String) : Node := ⟨name, [], .empty⟩

/-- The node with a chain merged into it that starts at its relation. -/
def grow (n : Node) : Chain → Node
  | .last _ field => { n with select := Forest.addField n.select field }
  | .step _ rest => { n with children := n.children.insert rest }

end Node

namespace Forest

/-- The forest below the top-level tree of a name; nothing if there is no such tree. -/
def childrenOf (f : Forest) (name : String) : Forest := (f.get? name).elim empty Node.children

def under : Forest → List String → Forest
  | f, [] => f
  | f, name :: path => (f.childrenOf name).under path

/-- The fields selected at a path; none if the path leads nowhere. -/
def selectAt (f : Forest) (path : List String) : List String := (f.at? path).elim [] Node.select

/-! ### One level -/

theorem names_insert (f : Forest) (c : Chain) :
    (f.insert c).names = addField f.names (some c.head) := by
  fun_induction insert f c with
  | case1 c => simp [names, addField]
  | case2 select children siblings relation field => simp [names, addField]
  | case3 select children siblings relation rest ih => simp [names, addField]
  | case4 relation select children siblings c hne ih =>
    rw [names, ih, names]
    by_cases hs : c.head ∈ siblings.names <;> simp [addField, hne, hs]

theorem get?_ofChain (c : Chain) (name : String) :
    (ofChain c).get? name = if name = c.head then some ((Node.fresh name).grow c) else none := by
  by_cases h : name = c.head
  · subst h
    cases c with
    | last relation field =>
      cases field <;> simp [ofChain, get?, Chain.head, Node.grow, Node.fresh, addField]
    | step relation rest => simp [ofChain, get?, Chain.head, Node.grow, Node.fresh, insert]
  · cases c <;> simp_all [ofChain, get?, Chain.head, eq_comm]

/-- The node of the chain's head grows, after it was made if it was missing. All others stay. -/
theorem get?_insert (f : Forest) (c : Chain) (name : String) :
    (f.insert c).get? name =
      if name = c.head then some (((f.get? name).getD (Node.fresh name)).grow c) else f.get? name := by
  fun_induction insert f c with
  | case1 c => exact get?_ofChain c name
  | case2 select children siblings relation field =>
    by_cases h : relation = name
    · simp [get?, h, Chain.head, Node.grow]
    · simp [get?, h, Chain.head, Ne.symm h]
  | case3 select children siblings relation rest ih =>
    by_cases h : relation = name
    · simp [get?, h, Chain.head, Node.grow]
    · simp [get?, h, Chain.head, Ne.symm h]
  | case4 relation select children siblings c hne ih =>
    by_cases h : relation = name
    · subst h
      simp [get?, Ne.symm hne]
    · simp only [get?, h, ↓reduceIte, ih]

theorem mem_names_iff {f : Forest} {name : String} : name ∈ f.names ↔ ∃ n, f.get? name = some n := by
  induction f with
  | empty => simp [names, get?]
  | tree relation select children siblings _ ih =>
    by_cases h : relation = name
    · simp [names, get?, h]
    · simp [names, get?, h, Ne.symm h, ih]

/-! ### Along a path -/

theorem childrenOf_empty (name : String) : empty.childrenOf name = empty := rfl

theorem under_empty (path : List String) : empty.under path = empty := by
  induction path with
  | nil => rfl
  | cons name path ih => rw [under, childrenOf_empty, ih]

/-- The empty path leads to no node. -/
theorem at?_nil (f : Forest) : f.at? [] = none := by
  cases f <;> rfl

theorem at?_cons (f : Forest) (name : String) {path : List String} (h : path ≠ []) :
    f.at? (name :: path) = (f.get? name).bind fun n => n.children.at? path := by
  cases path with
  | nil => exact absurd rfl h
  | cons next path => rfl

/-- A path leads to what its last name stands for below the rest of it. -/
theorem at?_concat (f : Forest) (path : List String) (name : String) :
    f.at? (path ++ [name]) = (f.under path).get? name := by
  induction path generalizing f with
  | nil => rfl
  | cons first path ih =>
    rw [List.cons_append, at?_cons f first (by simp), under, childrenOf]
    cases f.get? first with
    | none => rw [Option.bind_none, Option.elim_none, under_empty, get?]
    | some n => exact ih n.children

theorem names_under_empty (path : List String) : (empty.under path).names = [] := by
  rw [under_empty, names]

theorem selectAt_nil (f : Forest) : f.selectAt [] = [] := by
  cases f <;> rfl

theorem selectAt_empty (path : List String) : empty.selectAt path = [] := by
  rcases List.eq_nil_or_concat' path with rfl | ⟨init, last, rfl⟩
  · exact selectAt_nil empty
  · rw [selectAt, at?_concat, under_empty, get?, Option.elim_none]

/-- What is below the node that a path leads to. -/
theorem children_of_at? {f : Forest} {path : List String} {n : Node} (h : f.at? path = some n) :
    n.children = f.under path := by
  induction path generalizing f with
  | nil => cases f <;> cases h
  | cons name path ih =>
    rw [under, childrenOf]
    by_cases hp : path = []
    · subst hp
      have hget : f.get? name = some n := h
      rw [hget]
      rfl
    · rw [at?_cons f name hp] at h
      obtain ⟨m, hm, hn⟩ := Option.bind_eq_some_iff.1 h
      rw [hm]
      exact ih hn

/-- One step on from a node is to its child. -/
theorem at?_concat_of_at? {f : Forest} {path : List String} {n : Node} (h : f.at? path = some n)
    (name : String) : f.at? (path ++ [name]) = n.child? name := by
  rw [at?_concat, Node.child?, children_of_at? h]

theorem childrenOf_insert_last (f : Forest) (relation : String) (field : Option String)
    (name : String) : (f.insert (.last relation field)).childrenOf name = f.childrenOf name := by
  rw [childrenOf, get?_insert]
  by_cases h : name = relation
  · subst h
    cases hf : f.get? name <;> simp [childrenOf, Chain.head, Node.grow, Node.fresh, hf]
  · simp [childrenOf, Chain.head, h]

theorem childrenOf_insert_step (f : Forest) (relation : String) (rest : Chain) (name : String) :
    (f.insert (.step relation rest)).childrenOf name =
      if name = relation then (f.childrenOf name).insert rest else f.childrenOf name := by
  rw [childrenOf, get?_insert]
  by_cases h : name = relation
  · subst h
    cases hf : f.get? name <;> simp [childrenOf, Chain.head, Node.grow, Node.fresh, hf]
  · simp [childrenOf, Chain.head, h]

/-- **Insertion along a path.** Below a path that the chain goes along, the rest of the chain is
inserted; below every other path nothing changes. -/
theorem under_insert (f : Forest) (c : Chain) (path : List String) :
    (f.insert c).under path = match c.under? path with
      | some rest => (f.under path).insert rest
      | none => f.under path := by
  induction path generalizing f c with
  | nil => simp only [under, Chain.under?]
  | cons name path ih =>
    cases c with
    | last relation field =>
      rw [under, childrenOf_insert_last]
      rfl
    | step relation rest =>
      rw [under, childrenOf_insert_step]
      by_cases h : name = relation
      · simp only [h, ↓reduceIte, Chain.under?]
        exact ih (f.childrenOf relation) rest
      · simp only [h, ↓reduceIte, Chain.under?]
        rfl

/-- The names below a path get the next name of a chain that goes on from it. -/
theorem names_under_insert (path : List String) (f : Forest) (c : Chain) :
    ((f.insert c).under path).names = addField (f.under path).names (c.nextAfter? path) := by
  rw [under_insert, Chain.nextAfter?_eq]
  cases c.under? path with
  | none => rfl
  | some rest => exact names_insert _ rest

theorem select_getD_grow (n? : Option Node) (name : String) (c : Chain) (h : name = c.head) :
    ((n?.getD (Node.fresh name)).grow c).select =
      addField (n?.elim [] Node.select) (c.fieldAt? [name]) := by
  cases c with
  | last relation field =>
    obtain rfl : name = relation := h
    cases n? <;> simp [Node.grow, Node.fresh, Chain.fieldAt?, Chain.relations, Chain.field]
  | step relation rest =>
    obtain ⟨more, hmore⟩ := rest.relations_eq_cons
    cases n? <;> simp [Node.grow, Node.fresh, Chain.fieldAt?, Chain.relations, hmore, addField]

/-- The fields at a path get the field of a chain that ends there. -/
theorem selectAt_insert (path : List String) (name : String) (f : Forest) (c : Chain) :
    (f.insert c).selectAt (path ++ [name]) =
      addField (f.selectAt (path ++ [name])) (c.fieldAt? (path ++ [name])) := by
  rw [selectAt, selectAt, at?_concat, at?_concat, under_insert, Chain.fieldAt?_concat]
  cases c.under? path with
  | none => rfl
  | some rest =>
    simp only [Option.bind_some]
    rw [get?_insert]
    by_cases h : name = rest.head
    · rw [if_pos h, Option.elim_some, select_getD_grow _ _ _ h]
    · obtain ⟨more, hmore⟩ := rest.relations_eq_cons
      simp [h, Chain.fieldAt?, hmore, Ne.symm h, addField]

end Forest

end PopulateQuery
