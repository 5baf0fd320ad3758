import PopulateQuery.Proofs.Descriptor.Restoring
import PopulateQuery.Proofs.RoundTrip

/-!
# What the options allow

A value compiles under options where it compiles without and its forest is allowed (`compile_refines_plain`). The
depth that the limit is put on is that of the forest (`depth_is_of_longest_expression`).
-/

namespace PopulateQuery

/-!
## Compiling under options

Each expression is checked before anything is merged: it may not be longer than the limit, and may
name no forbidden relation (`Options.check_eq_ok_iff`). As the relations of the forest are those of
the expressions and its depth is that of the longest one, these checks decide what the forest itself
is like (`Options.checkAll_eq_ok_iff_allows`). So compiling under options is plain compiling, cut
down to the forests that the options allow (`Options.compile_refines_plain`).
-/

namespace Options

/-- What the options ask of a forest: it is no deeper than the limit, if there is one, and has no
forbidden relation at any depth. -/
structure Allows (o : Options) (f : Forest) : Prop where
  depth_le : ∀ limit, o.maxDepth = some limit → f.depth ≤ limit
  not_forbidden : ∀ n ∈ f.preorder, n.relation ∉ o.blacklist

/-! ### Checks on expressions -/

theorem limitBelow?_eq_none_iff {o : Options} {length : Nat} :
    o.limitBelow? length = none ↔ ∀ limit, o.maxDepth = some limit → length ≤ limit := by
  simp [limitBelow?, Option.filter_eq_none_iff]

theorem find?_forbids_eq_none_iff {o : Options} {relations : List String} :
    relations.find? o.forbids = none ↔ ∀ relation ∈ relations, relation ∉ o.blacklist := by
  simp [forbids]

/-- An expression passes where it is short enough and names no forbidden relation. -/
theorem check_eq_ok_iff {o : Options} {e : Expression} :
    o.check e = .ok () ↔ (∀ limit, o.maxDepth = some limit → e.chain.length ≤ limit) ∧
      ∀ relation ∈ e.chain.relations, relation ∉ o.blacklist := by
  rw [← limitBelow?_eq_none_iff, ← find?_forbids_eq_none_iff]
  unfold check
  split
  · rename_i limit hlimit
    simp [hlimit]
  · rename_i hlimit
    split
    · rename_i relation hfind
      simp [hfind]
    · rename_i hfind
      simp [hlimit, hfind]

theorem checkAll_eq_ok_iff {o : Options} {es : List Expression} :
    o.checkAll es = .ok () ↔ ∀ e ∈ es, o.check e = .ok () := by
  induction es with
  | nil => simp [checkAll]
  | cons e es ih =>
    rw [checkAll, List.forall_mem_cons, ← ih]
    cases o.check e with
    | error fault => simp [bind, Except.bind]
    | ok u => simp [bind, Except.bind]

/-! ### What they say of the forest -/

theorem forest_relations_iff (o : Options) (es : List Expression) :
    (∀ n ∈ (Forest.ofExpressions es).preorder, n.relation ∉ o.blacklist) ↔
      ∀ e ∈ es, ∀ relation ∈ e.chain.relations, relation ∉ o.blacklist := by
  have h := Forest.each_ofExpressions (P := (· ∉ o.blacklist)) (Q := fun _ => True) es
  simpa [Forest.Each, Chain.Each] using h

/-- All expressions pass where the options allow the forest that they are merged into. -/
theorem checkAll_eq_ok_iff_allows {o : Options} {es : List Expression} :
    o.checkAll es = .ok () ↔ o.Allows (.ofExpressions es) := by
  have hdepth := Forest.depth_ofExpressions_le_iff es
  have hrelations := forest_relations_iff o es
  rw [checkAll_eq_ok_iff]
  simp only [check_eq_ok_iff]
  constructor
  · intro h
    exact ⟨fun limit hlimit => (hdepth limit).2 fun e he => (h e he).1 limit hlimit,
      hrelations.2 fun e he => (h e he).2⟩
  · intro h e he
    exact ⟨fun limit hlimit => (hdepth limit).1 (h.depth_le limit hlimit) e he,
      hrelations.1 h.not_forbidden e he⟩

/-! ### Refinement -/

/-- Under options a value compiles to what it plainly compiles to, if they allow that. -/
theorem compile_eq_ok_iff_allows {o : Options} {value : String} {f : Forest} :
    (o.compile value).result = .ok f ↔ (Forest.compile value).result = .ok f ∧ o.Allows f := by
  rw [compile_eq_ok_iff, Forest.compile_eq_ok_iff]
  constructor
  · rintro ⟨es, hread, hcheck, rfl⟩
    exact ⟨⟨es, hread, rfl⟩, checkAll_eq_ok_iff_allows.1 hcheck⟩
  · rintro ⟨⟨es, hread, rfl⟩, hallows⟩
    exact ⟨es, hread, checkAll_eq_ok_iff_allows.2 hallows, rfl⟩

theorem compile_of_plain_error {value : String} {e : QueryError} (o : Options)
    (h : (Forest.compile value).result = .error e) : o.compile value = Forest.compile value := by
  rw [Forest.compile_eq_error_iff] at h
  rw [compile_eq, Forest.compile_eq, h]

theorem compile_of_unrestricted {o : Options} (hblacklist : o.blacklist = []) (hdepth : o.maxDepth = none)
    (value : String) : o.compile value = Forest.compile value := by
  have hchecks : ∀ es, o.checkAll es = .ok () := fun es =>
    checkAll_eq_ok_iff_allows.2 ⟨by simp [hdepth], by simp [hblacklist]⟩
  rw [compile_eq, Forest.compile_eq]
  cases Expression.readAll value with
  | error e => rfl
  | ok es => simp [hchecks es]

/-- **Compiling under options refines plain compiling.** A value compiles to a forest under options if
and only if it plainly compiles to that forest, the forest is no deeper than the limit, and none of its
nodes has a forbidden relation; an error of plain compiling comes back unchanged, whatever the
options. So without restrictions the two agree, two values that plainly compile to the same forest are
accepted or refused together, and the text of an accepted forest is accepted and compiles to it. -/
theorem compile_refines_plain (o : Options) (value : String) :
    (∀ f, (o.compile value).result = .ok f ↔ (Forest.compile value).result = .ok f ∧
      (∀ limit, o.maxDepth = some limit → f.depth ≤ limit) ∧
      ∀ n ∈ f.preorder, n.relation ∉ o.blacklist) ∧
    (∀ e, (Forest.compile value).result = .error e → (o.compile value).result = .error e) ∧
    (o.blacklist = [] → o.maxDepth = none → o.compile value = Forest.compile value) ∧
    (∀ other, (Forest.compile value).result = (Forest.compile other).result →
      ((∃ f, (o.compile value).result = .ok f) ↔ ∃ f, (o.compile other).result = .ok f)) ∧
    ∀ f, (o.compile value).result = .ok f → (o.compile f.render).result = .ok f := by
  refine ⟨fun f => ?_, fun e h => ?_, fun hb hd => compile_of_unrestricted hb hd value,
    fun other h => ?_, fun f h => ?_⟩
  · rw [compile_eq_ok_iff_allows]
    exact and_congr_right fun _ => ⟨fun h => ⟨h.depth_le, h.not_forbidden⟩, fun h => ⟨h.1, h.2⟩⟩
  · rw [compile_of_plain_error o h, h]
  · simp only [compile_eq_ok_iff_allows, h]
  · obtain ⟨hplain, hallows⟩ := compile_eq_ok_iff_allows.1 h
    exact compile_eq_ok_iff_allows.2 ⟨Forest.compile_render_of_compile hplain, hallows⟩

end Options

/-!
## How deep a forest is

The depth of a forest is the length of the longest expression that was merged into it (`depth_insertAll`), however
its expressions overlap. It is also how deep the descriptors are nested. So the limit that is put on each
expression holds the forest in exactly (`depth_is_of_longest_expression`).
-/

/-- The greatest of some numbers, none being zero, is at most a number where each of them is. -/
theorem max?_getD_le_iff {ns : List Nat} {m : Nat} : ns.max?.getD 0 ≤ m ↔ ∀ n ∈ ns, n ≤ m := by
  cases h : ns.max? with
  | none =>
    rw [List.max?_eq_none_iff.1 h]
    simp
  | some greatest => exact List.max?_le_iff h

namespace Forest

theorem depth_eq_zero_iff {f : Forest} : f.depth = 0 ↔ f = empty := by
  cases f with
  | empty => simp [depth]
  | tree relation select children siblings => simp [depth]

/-- A run makes a forest as deep as its longest expression, if it is not deeper already. -/
theorem depth_insertAll (f : Forest) (es : List Expression) :
    (f.insertAll es).depth = max f.depth ((es.map fun e => e.chain.length).max?.getD 0) := by
  refine eq_of_forall_ge_iff fun m => ?_
  rw [insertAll_eq_insertChains, depth_insertChains_le_iff, Nat.max_le, max?_getD_le_iff, List.forall_mem_map,
    List.forall_mem_map]

theorem depth_ofExpressions (es : List Expression) :
    (ofExpressions es).depth = (es.map fun e => e.chain.length).max?.getD 0 := by
  rw [ofExpressions, depth_insertAll, depth, Nat.zero_max]

/-- No expression is beyond the limit exactly where their forest is not. -/
theorem limitBelow?_ofExpressions (o : Options) (es : List Expression) :
    o.limitBelow? (ofExpressions es).depth = none ↔ ∀ e ∈ es, o.limitBelow? e.chain.length = none := by
  simp only [Options.limitBelow?_eq_none_iff, depth_ofExpressions_le_iff]
  exact ⟨fun h e he limit hlimit => h limit hlimit e he, fun h limit hlimit e he => h e he limit hlimit⟩

/-- **The depth of a forest is the length of its longest expression**, and zero where there is none. Only the empty
forest has depth zero. One more expression makes a forest as deep as the expression is long, unless it is deeper
already. The descriptors of a forest are nested as deep as it is. So no expression is longer than the options allow
if and only if the forest is not deeper than they allow. -/
theorem depth_is_of_longest_expression :
    (∀ es : List Expression,
      (ofExpressions es).depth = (es.map fun e => e.chain.segments.length).max?.getD 0) ∧
    (∀ f : Forest, f.depth = 0 ↔ f = empty) ∧
    (∀ (f : Forest) (c : Chain), (f.insert c).depth = max f.depth c.segments.length) ∧
    (∀ f : Forest, f.depth = Descriptor.nesting f.descriptors) ∧
    ∀ (o : Options) (es : List Expression),
      o.limitBelow? (ofExpressions es).depth = none ↔ ∀ e ∈ es, o.limitBelow? e.chain.length = none := by
  simp only [Chain.length_segments]
  exact ⟨depth_ofExpressions, fun f => depth_eq_zero_iff, depth_insert, fun f => (nesting_descriptors f).symm,
    limitBelow?_ofExpressions⟩

end Forest

end PopulateQuery
