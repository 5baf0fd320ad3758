import PopulateQuery.Proofs.Compilation
import PopulateQuery.Proofs.Forest.Canonical
import PopulateQuery.Proofs.Forest.Distinct

/-!
# The order of expressions

The order of the expressions decides the order of siblings and of selected fields, and nothing else
(`order_only_affects_order`).
-/

namespace PopulateQuery

/-!
## Forests up to order

`Reordered f g` — `f` and `g` differ only in the order of siblings and of selected fields, at any depth.
Inserting a chain respects this (`Reordered.insert`), and two chains may be inserted in either order
(`commutes`). So the order of the chains of a run has no other effect (`insertChains_reordered`).
Reordered forests have the same paths, and what these lead to is the same up to order
(`Reordered.exists_at?`).
-/

/-- Equal up to the order of siblings and of selected fields: selections are permuted, and neighbours of
different names change places, at any depth. -/
inductive Forest.Reordered : Forest → Forest → Prop where
  | empty : Reordered .empty .empty
  | tree {relation : String} {select select' : List String}
    {children children' siblings siblings' : Forest} :
    select.Perm select' → Reordered children children' → Reordered siblings siblings' →
    Reordered (.tree relation select children siblings) (.tree relation select' children' siblings')
  | swap {relation relation' : String} (select select' : List String)
    (children children' siblings : Forest) : relation ≠ relation' →
    Reordered (.tree relation select children (.tree relation' select' children' siblings))
      (.tree relation' select' children' (.tree relation select children siblings))
  | trans {f g h : Forest} : Reordered f g → Reordered g h → Reordered f h

/-- Nodes of one relation with the same fields and the same forest below them, up to order. -/
structure Node.Reordered (n m : Node) : Prop where
  relation_eq : n.relation = m.relation
  select_perm : n.select.Perm m.select
  children : n.children.Reordered m.children

namespace Forest

theorem Reordered.refl (f : Forest) : f.Reordered f := by
  induction f with
  | empty => exact .empty
  | tree relation select children siblings ihc ihs => exact .tree (.refl select) ihc ihs

theorem Reordered.symm {f g : Forest} (h : f.Reordered g) : g.Reordered f := by
  induction h with
  | empty => exact .empty
  | tree hselect _ _ ihc ihs => exact .tree hselect.symm ihc ihs
  | swap select select' children children' siblings hne => exact .swap _ _ _ _ _ hne.symm
  | trans _ _ ih ih' => exact ih'.trans ih

/-! ### What the order leaves alone -/

theorem Reordered.names_perm {f g : Forest} (h : f.Reordered g) : f.names.Perm g.names := by
  induction h with
  | empty => exact .refl _
  | tree _ _ _ _ ih => exact ih.cons _
  | swap => exact .swap _ _ _
  | trans _ _ ih ih' => exact ih.trans ih'

theorem Reordered.size_eq {f g : Forest} (h : f.Reordered g) : f.size = g.size :=
  h.names_perm.length_eq

theorem Reordered.depth_eq {f g : Forest} (h : f.Reordered g) : f.depth = g.depth := by
  induction h with
  | empty => rfl
  | tree _ _ _ ihc ihs => rw [depth, depth, ihc, ihs]
  | swap => simp only [depth, Nat.max_left_comm]
  | trans _ _ ih ih' => exact ih.trans ih'

/-- A name stands on both top levels for the same node, up to order. -/
theorem Reordered.exists_get? {f g : Forest} (h : f.Reordered g) {name : String} {n : Node}
    (hn : f.get? name = some n) : ∃ m, g.get? name = some m ∧ n.Reordered m := by
  induction h generalizing n with
  | empty => cases hn
  | @tree relation select select' children children' siblings siblings' hselect hchildren _ _ ihs =>
    by_cases hname : relation = name
    · simp only [get?, hname, ↓reduceIte, Option.some.injEq] at hn ⊢
      subst hn
      exact ⟨_, rfl, ⟨rfl, hselect, hchildren⟩⟩
    · simp only [get?, hname, ↓reduceIte] at hn ⊢
      exact ihs hn
  | @swap relation relation' select select' children children' siblings hne =>
    -- different names: at most one of the two trees is the one that is looked up
    refine ⟨n, ?_, ⟨rfl, .refl _, .refl _⟩⟩
    rw [← hn]
    by_cases hname : relation = name
    · have hname' : relation' ≠ name := fun e => hne (hname.trans e.symm)
      simp only [get?, hname, hname', ↓reduceIte]
    · simp only [get?, hname, ↓reduceIte]
  | trans _ _ ih ih' =>
    obtain ⟨m, hm, hnm⟩ := ih hn
    obtain ⟨k, hk, hmk⟩ := ih' hm
    exact ⟨k, hk, ⟨hnm.relation_eq.trans hmk.relation_eq, hnm.select_perm.trans hmk.select_perm,
      hnm.children.trans hmk.children⟩⟩

/-- A path leads in both forests to the same node, up to order. -/
theorem Reordered.exists_at? {f g : Forest} (h : f.Reordered g) {path : List String} {n : Node}
    (hn : f.at? path = some n) : ∃ m, g.at? path = some m ∧ n.Reordered m := by
  induction path generalizing f g with
  | nil => cases f <;> cases hn
  | cons name path ih =>
    by_cases hp : path = []
    · subst hp
      exact h.exists_get? hn
    · rw [at?_cons f name hp] at hn
      obtain ⟨top, htop, hbelow⟩ := Option.bind_eq_some_iff.1 hn
      obtain ⟨top', htop', htops⟩ := h.exists_get? htop
      obtain ⟨m, hm, hnm⟩ := ih htops.children hbelow
      refine ⟨m, ?_, hnm⟩
      rw [at?_cons g name hp, htop', Option.bind_some, hm]

/-! ### Selections -/

theorem addField_perm {select select' : List String} (h : select.Perm select') (field : Option String) :
    (addField select field).Perm (addField select' field) := by
  cases field with
  | none => exact h
  | some x =>
    by_cases hx : x ∈ select
    · simpa [addField, hx, h.mem_iff.1 hx] using h
    · have hx' : x ∉ select' := fun hmem => hx (h.mem_iff.2 hmem)
      simpa [addField, hx, hx'] using h.append_right [x]

theorem addField_comm (select : List String) (field field' : Option String) :
    (addField (addField select field) field').Perm (addField (addField select field') field) := by
  cases field with
  | none => exact .refl _
  | some x =>
    cases field' with
    | none => exact .refl _
    | some y =>
      by_cases hx : x ∈ select
      · by_cases hy : y ∈ select <;> simp [addField, hx, hy]
      · by_cases hy : y ∈ select
        · simp [addField, hx, hy]
        · by_cases hxy : x = y
          · simp [hxy]
          · have hswap : (select ++ [x, y]).Perm (select ++ [y, x]) := (List.Perm.swap y x []).append_left select
            simpa [addField, hx, hy, hxy, Ne.symm hxy] using hswap

/-! ### One insertion -/

/-- A chain of a tree's own relation grows its node, and its siblings have no part in it. -/
theorem insert_of_eq {relation : String} (select : List String) (children siblings : Forest) {c : Chain}
    (h : c.head = relation) : (tree relation select children siblings).insert c =
      tree relation ((Node.mk relation select children).grow c).select
        ((Node.mk relation select children).grow c).children siblings := by
  cases c with
  | last name field =>
    obtain rfl : name = relation := h
    exact insert_last select children siblings field
  | step name rest =>
    obtain rfl : name = relation := h
    exact insert_step select children siblings rest

/-- Inserting a chain into forests that are equal up to order. -/
theorem Reordered.insert {f g : Forest} (h : f.Reordered g) (c : Chain) :
    (f.insert c).Reordered (g.insert c) := by
  induction h generalizing c with
  | empty => exact .refl _
  | @tree relation select select' children children' siblings siblings' hselect hchildren hsiblings ihc ihs =>
    by_cases hhead : c.head = relation
    · rw [insert_of_eq _ _ _ hhead, insert_of_eq _ _ _ hhead]
      cases c with
      | last name field => exact .tree (addField_perm hselect field) hchildren hsiblings
      | step name rest => exact .tree hselect (ihc rest) hsiblings
    · rw [insert_of_ne _ _ _ hhead, insert_of_ne _ _ _ hhead]
      exact .tree hselect hchildren (ihs c)
  | @swap relation relation' select select' children children' siblings hne =>
    by_cases hhead : c.head = relation
    · have hhead' : c.head ≠ relation' := fun e => hne (hhead.symm.trans e)
      rw [insert_of_ne _ _ _ hhead', insert_of_eq _ _ _ hhead, insert_of_eq _ _ _ hhead]
      exact .swap _ _ _ _ _ hne
    · by_cases hhead' : c.head = relation'
      · rw [insert_of_ne _ _ _ hhead, insert_of_eq _ _ _ hhead', insert_of_eq _ _ _ hhead']
        exact .swap _ _ _ _ _ hne
      · rw [insert_of_ne _ _ _ hhead, insert_of_ne _ _ _ hhead', insert_of_ne _ _ _ hhead',
          insert_of_ne _ _ _ hhead]
        exact .swap _ _ _ _ _ hne
  | trans _ _ ih ih' => exact (ih c).trans (ih' c)

/-! ### Two insertions -/

/-- Every forest takes the two chains in either order, up to the order of what it holds then. -/
def Commutes (c d : Chain) : Prop := ∀ f : Forest, ((f.insert c).insert d).Reordered ((f.insert d).insert c)

/-- Two chains grow the same node in either order, if their rests may come in either order below it. -/
theorem tree_insert_comm {relation : String} (select : List String) (children siblings : Forest)
    {c d : Chain} (hc : c.head = relation) (hd : d.head = relation)
    (hbelow : ∀ name name' rest rest', c = .step name rest → d = .step name' rest' → Commutes rest rest') :
    (((tree relation select children siblings).insert c).insert d).Reordered
      (((tree relation select children siblings).insert d).insert c) := by
  rw [insert_of_eq _ _ _ hc, insert_of_eq _ _ _ hd, insert_of_eq _ _ _ hd, insert_of_eq _ _ _ hc]
  cases c with
  | last name field =>
    cases d with
    | last name' field' => exact .tree (addField_comm select field field') (.refl _) (.refl _)
    | step name' rest' => exact .refl _
  | step name rest =>
    cases d with
    | last name' field' => exact .refl _
    | step name' rest' => exact .tree (.refl _) (hbelow _ _ _ _ rfl rfl children) (.refl _)

/-- Two chains of different heads put their trees beside each other. -/
theorem insert_empty_comm {c d : Chain} (h : c.head ≠ d.head) :
    ((empty.insert c).insert d).Reordered ((empty.insert d).insert c) := by
  rw [insert_empty c, insert_empty d, insert_of_eq _ _ _ rfl, insert_of_eq _ _ _ rfl,
    insert_of_ne _ _ _ h.symm, insert_of_ne _ _ _ h, insert_empty c, insert_empty d,
    insert_of_eq _ _ _ rfl, insert_of_eq _ _ _ rfl]
  exact .swap _ _ _ _ _ h

theorem commutes_of_below {c d : Chain}
    (hbelow : ∀ name name' rest rest', c = .step name rest → d = .step name' rest' → Commutes rest rest') :
    Commutes c d := by
  intro f
  induction f with
  | empty =>
    by_cases h : c.head = d.head
    · rw [insert_empty c, insert_empty d, h]
      exact tree_insert_comm [] empty empty h rfl hbelow
    · exact insert_empty_comm h
  | tree relation select children siblings _ ihs =>
    by_cases hc : c.head = relation
    · by_cases hd : d.head = relation
      · exact tree_insert_comm select children siblings hc hd hbelow
      · rw [insert_of_eq _ _ _ hc, insert_of_ne _ _ _ hd, insert_of_ne _ _ _ hd, insert_of_eq _ _ _ hc]
        exact .refl _
    · by_cases hd : d.head = relation
      · rw [insert_of_ne _ _ _ hc, insert_of_eq _ _ _ hd, insert_of_eq _ _ _ hd, insert_of_ne _ _ _ hc]
        exact .refl _
      · rw [insert_of_ne _ _ _ hc, insert_of_ne _ _ _ hd, insert_of_ne _ _ _ hd, insert_of_ne _ _ _ hc]
        exact .tree (.refl _) (.refl _) ihs

/-- **Two chains may be inserted in either order.** -/
theorem commutes (c d : Chain) : Commutes c d := by
  -- on the first chain: only the rests of two steps meet again, one level down
  induction c generalizing d with
  | last relation field => exact commutes_of_below fun _ _ _ _ hc => nomatch hc
  | step relation rest ih =>
    refine commutes_of_below fun name name' rest' rest'' hc _ => ?_
    cases hc
    exact ih rest''

/-! ### Runs -/

theorem Reordered.insertChains {f g : Forest} (h : f.Reordered g) (cs : List Chain) :
    (f.insertChains cs).Reordered (g.insertChains cs) := by
  induction cs generalizing f g with
  | nil => exact h
  | cons c cs ih => exact ih (h.insert c)

/-- **The order of a run only affects order.** -/
theorem insertChains_reordered {cs cs' : List Chain} (h : cs.Perm cs') (f : Forest) :
    (f.insertChains cs).Reordered (f.insertChains cs') := by
  induction h generalizing f with
  | nil => exact .refl f
  | cons c _ ih => exact ih (f.insert c)
  | swap c d cs => exact (commutes d c f).insertChains cs
  | trans _ _ ih ih' => exact (ih f).trans (ih' f)

theorem ofExpressions_reordered {es es' : List Expression} (h : es.Perm es') :
    (ofExpressions es).Reordered (ofExpressions es') := by
  rw [ofExpressions_eq_insertChains, ofExpressions_eq_insertChains]
  exact insertChains_reordered (h.map Expression.chain) empty

end Forest

/-!
## The order of expressions

Permuting expressions permutes siblings and selected fields of their forest and changes nothing else.
What stands below a top-level name is made by the expressions with this head alone, so as long as the
heads are first seen in the same order and those of each head stay in order, the forest does not change
at all (`ofExpressions_eq_of_heads`). This is so when the expressions are grouped by their heads
(`groupedByHead`).
-/

/-! ### Expressions of one head -/

namespace Expression

/-- The heads of expressions, in first-seen order. -/
def heads (es : List Expression) : List String := (es.map fun e => e.chain.head).eraseDups

def ofHead (es : List Expression) (head : String) : List Expression := es.filter fun e => e.chain.head = head

def ofOtherHeads (es : List Expression) (head : String) : List Expression :=
  es.filter fun e => e.chain.head ≠ head

/-- The expressions of the first head, then those of the second, and so on; in each group they keep their
order. -/
def groupedByHead (es : List Expression) : List Expression := (heads es).flatMap (ofHead es)

section Heads
variable {es : List Expression} {head name : String} {e : Expression}

theorem mem_heads_iff : head ∈ heads es ↔ ∃ e ∈ es, e.chain.head = head := by
  rw [heads, List.mem_eraseDups, List.mem_map]

theorem mem_ofHead_iff : e ∈ ofHead es head ↔ e ∈ es ∧ e.chain.head = head := by
  simp [ofHead]

theorem mem_ofOtherHeads_iff : e ∈ ofOtherHeads es head ↔ e ∈ es ∧ e.chain.head ≠ head := by
  simp [ofOtherHeads]

theorem nodup_heads (es : List Expression) : (heads es).Nodup := Forest.nodup_eraseDups _

theorem heads_cons (e : Expression) (es : List Expression) :
    heads (e :: es) = e.chain.head :: heads (ofOtherHeads es e.chain.head) := by
  have hothers : (es.map fun e => e.chain.head).filter (fun head => !head == e.chain.head) =
      (ofOtherHeads es e.chain.head).map fun e => e.chain.head := by
    simp [ofOtherHeads, List.filter_map, Function.comp_def, beq_eq_decide]
  rw [heads, List.map_cons, List.eraseDups_cons, hothers, heads]

theorem ofHead_append (es later : List Expression) (head : String) :
    ofHead (es ++ later) head = ofHead es head ++ ofHead later head := List.filter_append ..

theorem ofHead_of_not_mem (h : head ∉ heads es) : ofHead es head = [] := by
  rw [List.eq_nil_iff_forall_not_mem]
  intro e he
  exact h (mem_heads_iff.2 ⟨e, mem_ofHead_iff.1 he⟩)

theorem ofHead_ofHead (es : List Expression) (head name : String) :
    ofHead (ofHead es name) head = if head = name then ofHead es head else [] := by
  split
  · rename_i h
    subst h
    exact List.filter_eq_self.2 fun e he => decide_eq_true (mem_ofHead_iff.1 he).2
  · rename_i h
    rw [List.eq_nil_iff_forall_not_mem]
    intro e he
    obtain ⟨hmem, hhead⟩ := mem_ofHead_iff.1 he
    exact h (hhead.symm.trans (mem_ofHead_iff.1 hmem).2)

theorem ofHead_ofOtherHeads (es : List Expression) (h : head ≠ name) :
    ofHead (ofOtherHeads es name) head = ofHead es head := by
  rw [ofHead, ofOtherHeads, List.filter_filter, ofHead]
  refine List.filter_congr fun e _ => ?_
  by_cases hhead : e.chain.head = head
  · simp [hhead, h]
  · simp [hhead]

/-- The expressions of one head and those of every other are all of them. -/
theorem ofHead_append_ofOtherHeads_perm (es : List Expression) (head : String) :
    (ofHead es head ++ ofOtherHeads es head).Perm es := by
  simpa [ofHead, ofOtherHeads] using List.filter_append_perm (fun e : Expression => decide (e.chain.head = head)) es

end Heads

/-- What the expressions of other heads do not contribute to is the part of those of one head. -/
theorem filterMap_ofHead {key : Chain → Option String} {head : String}
    (h : ∀ c : Chain, c.head ≠ head → key c = none) (es : List Expression) :
    (ofHead es head).filterMap (fun e => key e.chain) = es.filterMap fun e => key e.chain := by
  rw [ofHead, List.filterMap_filter]
  refine List.filterMap_congr fun e _ => ?_
  by_cases hhead : e.chain.head = head
  · simp [hhead]
  · simp [hhead, h _ hhead]

/-! ### Groups -/

/-- Groups of different heads, taken out of a list that has no other heads, are a permutation of it. -/
theorem flatMap_ofHead_perm : ∀ {names : List String} {es : List Expression}, names.Nodup →
    (∀ e ∈ es, e.chain.head ∈ names) → (names.flatMap (ofHead es)).Perm es
  | [], es, _, h => by
    cases es with
    | nil => exact .refl _
    | cons e es => exact absurd (h e List.mem_cons_self) List.not_mem_nil
  | name :: names, es, hnodup, h => by
    obtain ⟨hnew, hnames⟩ := List.nodup_cons.1 hnodup
    -- the later groups can as well be taken out of what is left without the first one
    have hlater : names.flatMap (ofHead es) = names.flatMap (ofHead (ofOtherHeads es name)) := by
      refine List.flatMap_congr fun later hlater => ?_
      have hne : later ≠ name := fun e => hnew (e ▸ hlater)
      rw [ofHead_ofOtherHeads es hne]
    have hothers : ∀ e ∈ ofOtherHeads es name, e.chain.head ∈ names := by
      intro e he
      obtain ⟨hmem, hne⟩ := mem_ofOtherHeads_iff.1 he
      exact (List.mem_cons.1 (h e hmem)).resolve_left hne
    rw [List.flatMap_cons, hlater]
    exact ((flatMap_ofHead_perm hnames hothers).append_left _).trans (ofHead_append_ofOtherHeads_perm es name)

theorem groupedByHead_perm (es : List Expression) : (groupedByHead es).Perm es :=
  flatMap_ofHead_perm (nodup_heads es) fun e he => mem_heads_iff.2 ⟨e, he, rfl⟩

/-- A group is left as it is, and no other group has expressions of its head. -/
theorem ofHead_flatMap (es : List Expression) (head : String) {names : List String} (h : names.Nodup) :
    ofHead (names.flatMap (ofHead es)) head = if head ∈ names then ofHead es head else [] := by
  induction names with
  | nil => rfl
  | cons name names ih =>
    obtain ⟨hnew, hnames⟩ := List.nodup_cons.1 h
    rw [List.flatMap_cons, ofHead_append, ofHead_ofHead, ih hnames]
    by_cases hhead : head = name
    · subst hhead
      simp [hnew]
    · simp [hhead]

/-- Grouping keeps, for each head, the expressions of this head in their order. -/
theorem ofHead_groupedByHead (es : List Expression) (head : String) :
    ofHead (groupedByHead es) head = ofHead es head := by
  rw [groupedByHead, ofHead_flatMap es head (nodup_heads es)]
  split
  · rfl
  · rename_i hnot
    exact (ofHead_of_not_mem hnot).symm

/-- The heads of a group that is not empty, and then of others, in first-seen order. -/
theorem heads_ofHead_append {es later : List Expression} {name : String} (h : name ∈ heads es)
    (hlater : ∀ e ∈ later, e.chain.head ≠ name) : heads (ofHead es name ++ later) = name :: heads later := by
  obtain ⟨first, hfirst⟩ := mem_heads_iff.1 h
  obtain ⟨e, rest, hgroup⟩ : ∃ e rest, ofHead es name = e :: rest :=
    List.exists_cons_of_ne_nil (List.ne_nil_of_mem (mem_ofHead_iff.2 hfirst))
  have hheads : ∀ x ∈ e :: rest, x.chain.head = name := fun x hx => (mem_ofHead_iff.1 (hgroup ▸ hx)).2
  obtain ⟨he, hrest⟩ := List.forall_mem_cons.1 hheads
  have hdropped : ofOtherHeads rest name = [] := by
    simpa [ofOtherHeads] using hrest
  have hkept : ofOtherHeads later name = later := by
    simpa [ofOtherHeads] using hlater
  have hothers : ofOtherHeads (rest ++ later) name = later := by
    rw [ofOtherHeads, List.filter_append, ← ofOtherHeads, ← ofOtherHeads, hdropped, hkept, List.nil_append]
  rw [hgroup, List.cons_append, heads_cons, he, hothers]

/-- Grouping keeps the order in which the heads are first seen. -/
theorem heads_groupedByHead (es : List Expression) : heads (groupedByHead es) = heads es := by
  have hgroups : ∀ names : List String, names.Nodup → names ⊆ heads es →
      heads (names.flatMap (ofHead es)) = names := by
    intro names hnodup hsub
    induction names with
    | nil => rfl
    | cons name names ih =>
      obtain ⟨hnew, hnames⟩ := List.nodup_cons.1 hnodup
      rw [List.cons_subset] at hsub
      have hlater : ∀ e ∈ names.flatMap (ofHead es), e.chain.head ≠ name := by
        intro e he hname
        obtain ⟨later, hmem, hgroup⟩ := List.mem_flatMap.1 he
        rw [← hname, (mem_ofHead_iff.1 hgroup).2] at hnew
        exact hnew hmem
      rw [List.flatMap_cons, heads_ofHead_append hsub.1 hlater, ih hnames hsub.2]
  exact hgroups _ (nodup_heads es) (List.Subset.refl _)

end Expression

namespace Forest

/-! ### Expressions that build the same forest in another order -/

theorem names_ofExpressions (es : List Expression) : (ofExpressions es).names = Expression.heads es := by
  have hroot := names_under_ofExpressions es []
  have hhead : (fun e : Expression => e.chain.nextAfter? []) = fun e => some e.chain.head := by
    funext e
    rw [Chain.nextAfter?_eq, Chain.under?]
    rfl
  rwa [hhead, List.filterMap_eq_map'] at hroot

/-- **What the order decides.** Expressions whose heads are first seen in the same order, and that for each
head are the same in the same order, build the same forest. -/
theorem ofExpressions_eq_of_heads {es es' : List Expression} (hheads : Expression.heads es = Expression.heads es')
    (hgroups : ∀ head, Expression.ofHead es head = Expression.ofHead es' head) :
    ofExpressions es = ofExpressions es' := by
  have hviews : ∀ (key : Chain → Option String) (name : String),
      (∀ c : Chain, c.head ≠ name → key c = none) →
      es.filterMap (fun e => key e.chain) = es'.filterMap fun e => key e.chain := by
    intro key name hkey
    rw [← Expression.filterMap_ofHead hkey, hgroups, Expression.filterMap_ofHead hkey]
  refine eq_of_alike (distinct_ofExpressions es) (distinct_ofExpressions es') ⟨fun path => ?_, fun path => ?_⟩
  · cases path with
    | nil => rw [under, under, names_ofExpressions, names_ofExpressions, hheads]
    | cons name path =>
      rw [names_under_ofExpressions, names_under_ofExpressions,
        hviews (Chain.nextAfter? (name :: path)) name fun c hc => Chain.nextAfter?_of_head_ne hc path]
  · rcases List.eq_nil_or_concat' path with rfl | ⟨init, last, hpath⟩
    · rw [selectAt_nil, selectAt_nil]
    · obtain ⟨name, rest, hcons⟩ := List.exists_cons_of_ne_nil (l := path) (by rw [hpath]; simp)
      have hfields := hviews (Chain.fieldAt? (name :: rest)) name fun c hc => Chain.fieldAt?_of_head_ne hc rest
      rw [← hcons, hpath] at hfields
      rw [hpath, selectAt_ofExpressions, selectAt_ofExpressions, hfields]

theorem ofExpressions_groupedByHead (es : List Expression) :
    ofExpressions (Expression.groupedByHead es) = ofExpressions es :=
  ofExpressions_eq_of_heads (Expression.heads_groupedByHead es) (Expression.ofHead_groupedByHead es)

/-- **The order of expressions only affects order.** Permuted expressions build the same forest up to the
order of siblings and of selected fields, at any depth: as many trees, the same depth, the same paths, and
at each path the same fields and the same names below. Where the heads are first seen in the same order, and
the expressions of each head stay in order, the forest is the same. So it does not change when they are
grouped by head, and neither do its descriptors. -/
theorem order_only_affects_order :
    (∀ es es' : List Expression, es.Perm es' →
      (ofExpressions es).Reordered (ofExpressions es') ∧
      (ofExpressions es).size = (ofExpressions es').size ∧
      (ofExpressions es).depth = (ofExpressions es').depth ∧
      (ofExpressions es).names.Perm (ofExpressions es').names ∧
      ∀ path : List String,
        ((∃ n, (ofExpressions es).at? path = some n) ↔ ∃ m, (ofExpressions es').at? path = some m) ∧
        ∀ n m, (ofExpressions es).at? path = some n → (ofExpressions es').at? path = some m →
          n.select.Perm m.select ∧ n.children.names.Perm m.children.names) ∧
    (∀ es es' : List Expression, Expression.heads es = Expression.heads es' →
      (∀ head, Expression.ofHead es head = Expression.ofHead es' head) →
      ofExpressions es = ofExpressions es') ∧
    ∀ es : List Expression, (Expression.groupedByHead es).Perm es ∧
      ofExpressions (Expression.groupedByHead es) = ofExpressions es ∧
      (ofExpressions (Expression.groupedByHead es)).descriptors = (ofExpressions es).descriptors := by
  refine ⟨fun es es' h => ?_, fun es es' hheads hgroups => ?_, fun es => ⟨?_, ?_, ?_⟩⟩
  · have hreordered := ofExpressions_reordered h
    refine ⟨hreordered, hreordered.size_eq, hreordered.depth_eq, hreordered.names_perm, fun path => ⟨⟨?_, ?_⟩, ?_⟩⟩
    · rintro ⟨n, hn⟩
      obtain ⟨m, hm, -⟩ := hreordered.exists_at? hn
      exact ⟨m, hm⟩
    · rintro ⟨m, hm⟩
      obtain ⟨n, hn, -⟩ := hreordered.symm.exists_at? hm
      exact ⟨n, hn⟩
    · intro n m hn hm
      obtain ⟨m', hm', hnodes⟩ := hreordered.exists_at? hn
      obtain rfl : m' = m := Option.some.inj (hm'.symm.trans hm)
      exact ⟨hnodes.select_perm, hnodes.children.names_perm⟩
  · exact ofExpressions_eq_of_heads hheads hgroups
  · exact Expression.groupedByHead_perm es
  · exact ofExpressions_groupedByHead es
  · rw [ofExpressions_groupedByHead]

/-- Exchanging two fields of one head around an expression of another, and moving that one behind both. -/
theorem order_only_affects_order_between_fields :
    (ofExpressions [⟨"a.x", .last "a" (some "x")⟩, ⟨"b", .last "b" none⟩, ⟨"a.y", .last "a" (some "y")⟩]).Reordered
      (ofExpressions [⟨"a.y", .last "a" (some "y")⟩, ⟨"b", .last "b" none⟩, ⟨"a.x", .last "a" (some "x")⟩]) ∧
    ["x", "y"].Perm ["y", "x"] ∧
    ofExpressions [⟨"a.x", .last "a" (some "x")⟩, ⟨"b", .last "b" none⟩, ⟨"a.y", .last "a" (some "y")⟩] =
      ofExpressions [⟨"a.x", .last "a" (some "x")⟩, ⟨"a.y", .last "a" (some "y")⟩, ⟨"b", .last "b" none⟩] := by
  have hpermuted := order_only_affects_order.1
    [⟨"a.x", .last "a" (some "x")⟩, ⟨"b", .last "b" none⟩, ⟨"a.y", .last "a" (some "y")⟩]
    [⟨"a.y", .last "a" (some "y")⟩, ⟨"b", .last "b" none⟩, ⟨"a.x", .last "a" (some "x")⟩] (by decide)
  have hnodes := (hpermuted.2.2.2.2 ["a"]).2 ⟨"a", ["x", "y"], empty⟩ ⟨"a", ["y", "x"], empty⟩ (by decide) (by decide)
  refine ⟨hpermuted.1, hnodes.1, order_only_affects_order.2.1 _ _ (by decide) fun head => ?_⟩
  by_cases ha : "a" = head
  · subst ha
    decide
  · simp [Expression.ofHead, List.filter_cons, Chain.head, ha]

end Forest

end PopulateQuery
