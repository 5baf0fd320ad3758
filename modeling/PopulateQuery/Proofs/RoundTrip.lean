import PopulateQuery.Proofs.Compilation
import PopulateQuery.Proofs.Forest.Canonical
import PopulateQuery.Proofs.Forest.Distinct

/-!
# The canonical text

The canonical text of a forest compiles to the forest again (`render_undone_by_compile`), can stand for any value
that compiles to it (`merging_is_congruence`), and is as short as it can be (`canonical_text_is_minimal`).
-/

namespace PopulateQuery

/-!
## Compiling what was rendered

The canonical text of a forest is cut back into its canonical chains where no name and no field has
a comma in it (`splitOn_render`), each of these is read as the chain that was written, and merging
them gives the forest back. So rendering is undone by compiling, except for a comma in a name or a
field, which an expression may have that was not cut out of a list (`render_undone_by_compile`).
-/

namespace Forest

/-! ### The canonical chains -/

theorem each_canonical {P Q : String → Prop} {f : Forest} (h : f.Distinct) :
    f.Each P Q ↔ ∀ c ∈ f.canonical, c.Each P Q := by
  conv => lhs; rw [← insertChains_canonical h]
  rw [each_insertChains]
  exact and_iff_right each_empty

theorem toList_render (f : Forest) :
    f.render.toList = [','].intercalate (f.canonical.map fun c => c.render.toList) := by
  rw [render, String.toList_intercalate, List.map_map]
  rfl

/-- The canonical chains are what lies between the commas of the text. -/
theorem splitOn_render {f : Forest} (hne : f ≠ empty) (h : f.Distinct)
    (hcomma : f.Lacks ',') :
    f.render.toList.splitOn ',' = f.canonical.map fun c => c.render.toList := by
  rw [toList_render]
  refine List.splitOn_intercalate ',' (fun piece hpiece hmem => ?_) ?_
  · obtain ⟨c, hc, rfl⟩ := List.mem_map.1 hpiece
    have hlacks : c.Lacks ',' := (each_canonical h).1 hcomma c hc
    exact Chain.forall_mem_render hlacks.forall_ne (by decide) (by decide) ',' hmem rfl
  · rw [ne_eq, List.map_eq_nil_iff, canonical_eq_nil_iff]
    exact hne

/-- What is read from the canonical text: each canonical chain, as it is written. -/
theorem readAll_render {f : Forest} (hne : f ≠ empty) (h : f.Distinct) (heach : f.Each IsName IsField)
    (hcomma : f.Lacks ',') :
    Expression.readAll f.render = .ok (f.canonical.map fun c => ⟨c.render, c⟩) := by
  rw [Expression.readAll_eq_ok_iff, splitOn_render hne h hcomma, List.forall₂_map_left_iff,
    List.forall₂_map_right_iff, List.forall₂_same]
  intro c hc
  rw [String.ofList_toList]
  exact Expression.read_render ((each_canonical h).1 heach c hc)

/-! ### There and back -/

theorem compile_render {f : Forest} (hne : f ≠ empty) (h : f.Distinct) (heach : f.Each IsName IsField)
    (hcomma : f.Lacks ',') : (compile f.render).result = .ok f := by
  refine compile_eq_ok_iff.2 ⟨_, readAll_render hne h heach hcomma, ?_⟩
  rw [ofExpressions_eq_insertChains, List.map_map]
  exact (insertChains_canonical h).symm.trans (by simp [Function.comp_def])

/-! ### What compiling gives -/

theorem ofExpressions_ne_empty {es : List Expression} (h : es ≠ []) : ofExpressions es ≠ empty := by
  obtain ⟨e, rest, rfl⟩ := List.exists_cons_of_ne_nil h
  intro hempty
  have hdepth : (ofExpressions (e :: rest)).depth ≤ 0 := by
    rw [hempty]
    exact le_rfl
  have hlength := (depth_ofExpressions_le_iff _ 0).1 hdepth e List.mem_cons_self
  exact absurd e.chain.length_pos (by omega)

theorem ne_empty_of_compile {value : String} {f : Forest} (h : (compile value).result = .ok f) :
    f ≠ empty := by
  obtain ⟨es, hes, rfl⟩ := compile_eq_ok_iff.1 h
  exact ofExpressions_ne_empty (Expression.readAll_ne_nil hes)

theorem lacks_comma_of_compile {value : String} {f : Forest} (h : (compile value).result = .ok f) :
    f.Lacks ',' := by
  obtain ⟨es, hes, rfl⟩ := compile_eq_ok_iff.1 h
  rw [Lacks, each_ofExpressions]
  intro e he
  obtain ⟨text, hcomma, hread⟩ := Expression.exists_of_mem_readAll hes he
  exact Expression.lacks_of_read hread hcomma

theorem reachable_of_compile {value : String} {f : Forest} (h : (compile value).result = .ok f) :
    f.Reachable := by
  obtain ⟨es, hes, rfl⟩ := compile_eq_ok_iff.1 h
  refine Reachable.start.insertAll fun e he => ?_
  obtain ⟨text, -, hread⟩ := Expression.exists_of_mem_readAll hes he
  exact ⟨text, hread⟩

/-- What compiling gives is what its canonical text compiles to. -/
theorem compile_render_of_compile {value : String} {f : Forest}
    (h : (compile value).result = .ok f) : (compile f.render).result = .ok f :=
  have hreachable := reachable_of_compile h
  compile_render (ne_empty_of_compile h) hreachable.distinct hreachable.each (lacks_comma_of_compile h)

/-- **Compiling undoes rendering.** The canonical text of a reachable forest compiles to that forest
if and only if there is something to hydrate and no relation and no field, at any depth, has a comma
in it. Every compiled forest is such a forest, so its text compiles to it, and the text of what it
compiles to is the same text. -/
theorem render_undone_by_compile :
    (∀ f : Forest, f.Reachable → ((compile f.render).result = .ok f ↔
      f ≠ empty ∧ ∀ n ∈ f.preorder, ',' ∉ n.relation.toList ∧ ∀ field ∈ n.select, ',' ∉ field.toList)) ∧
    ∀ (value : String) (f : Forest), (compile value).result = .ok f →
      f.Reachable ∧ (compile f.render).result = .ok f ∧
        ∀ g, (compile f.render).result = .ok g → g.render = f.render := by
  refine ⟨fun f hf => ⟨fun h => ?_, fun ⟨hne, hcomma⟩ => ?_⟩, fun value f h => ?_⟩
  · exact ⟨ne_empty_of_compile h, lacks_comma_of_compile h⟩
  · exact compile_render hne hf.distinct hf.each hcomma
  · have hback := compile_render_of_compile h
    refine ⟨reachable_of_compile h, hback, fun g hg => ?_⟩
    rw [hback] at hg
    cases hg
    rfl

/-- A comma may be part of a name that was read alone. In the text of the forest it parts two names. -/
example : (compile (ofChain (.last "a,b" none)).render).result =
    .ok (tree "a" [] empty (tree "b" [] empty empty)) := by cbv

/-!
## Equivalent values

Values that compile to the same forest can stand for each other anywhere in a list of values
(`merging_is_congruence`), because merging their expressions has the same effect on every forest that
is there before (`insertAll_congr`), however these expressions differ in number, order and repetition.
In particular a value can be replaced by its canonical text.
-/

theorem insertAll_congr {f : Forest} (hf : f.Distinct) {es es' : List Expression}
    (h : ofExpressions es = ofExpressions es') : f.insertAll es = f.insertAll es' := by
  rw [ofExpressions_eq_insertChains, ofExpressions_eq_insertChains] at h
  rw [insertAll_eq_insertChains, insertAll_eq_insertChains]
  exact insertChains_congr hf h

theorem ofExpressions_append (es es' : List Expression) :
    ofExpressions (es ++ es') = (ofExpressions es).insertAll es' := insertAll_append empty es es'

/-- Expressions that make the same forest can stand for each other between other expressions. -/
theorem ofExpressions_between_congr (before after : List Expression) {es es' : List Expression}
    (h : ofExpressions es = ofExpressions es') :
    ofExpressions (before ++ (es ++ after)) = ofExpressions (before ++ (es' ++ after)) := by
  have hmiddle := insertAll_congr (distinct_ofExpressions before) h
  rw [ofExpressions_append, ofExpressions_append, insertAll_append, insertAll_append, hmiddle]

/-! ### Values between other values -/

theorem readAll_of_compile {value : String} (h : ∃ f, (compile value).result = .ok f) :
    ∃ es, Expression.readAll value = .ok es := by
  obtain ⟨f, hf⟩ := h
  obtain ⟨es, hes, -⟩ := compile_eq_ok_iff.1 hf
  exact ⟨es, hes⟩

/-- A value between others adds its expressions between theirs. -/
theorem compile_between {before after : List String} {ess ess' : List (List Expression)}
    (hbefore : before.mapM Expression.readAll = .ok ess)
    (hafter : after.mapM Expression.readAll = .ok ess') {v : String} {es : List Expression}
    (hv : Expression.readAll v = .ok es) :
    (compile (",".intercalate (before ++ v :: after))).result =
      .ok (ofExpressions (ess.flatten ++ (es ++ ess'.flatten))) := by
  have hall : (before ++ v :: after).mapM Expression.readAll = .ok (ess ++ es :: ess') := by
    rw [List.mapM_append, List.mapM_cons, hbefore, hv, hafter]
    rfl
  refine compile_eq_ok_iff.2 ⟨(ess ++ es :: ess').flatten, ?_, ?_⟩
  · rw [Expression.readAll_intercalate (by simp), hall]
    rfl
  · rw [List.flatten_append, List.flatten_cons]

theorem compile_between_congr {before after : List String}
    (hothers : ∀ u ∈ before ++ after, ∃ g, (compile u).result = .ok g) {v v' : String} {f : Forest}
    (hv : (compile v).result = .ok f) (hv' : (compile v').result = .ok f) :
    ∃ g, (compile (",".intercalate (before ++ v :: after))).result = .ok g ∧
      (compile (",".intercalate (before ++ v' :: after))).result = .ok g := by
  rw [List.forall_mem_append] at hothers
  obtain ⟨ess, hbefore⟩ := exists_mapM_eq_ok_iff.2 fun u hu => readAll_of_compile (hothers.1 u hu)
  obtain ⟨ess', hafter⟩ := exists_mapM_eq_ok_iff.2 fun w hw => readAll_of_compile (hothers.2 w hw)
  obtain ⟨es, hes, hf⟩ := compile_eq_ok_iff.1 hv
  obtain ⟨es', hes', hf'⟩ := compile_eq_ok_iff.1 hv'
  refine ⟨_, compile_between hbefore hafter hes, ?_⟩
  rw [compile_between hbefore hafter hes',
    ofExpressions_between_congr ess.flatten ess'.flatten (hf.symm.trans hf')]

/-- **Merging is a congruence.** Between values that compile, a value may be replaced by one that
compiles to the same forest: the joined values compile, and to the same forest. Expressions that make
the same forest have the same effect on every reachable forest. So between other values a value may be
replaced by the text of what it compiles to. -/
theorem merging_is_congruence :
    (∀ (before after : List String) (v v' : String) (f : Forest),
      (∀ u ∈ before ++ after, ∃ g, (compile u).result = .ok g) →
      (compile v).result = .ok f → (compile v').result = .ok f →
      ∃ g, (compile (",".intercalate (before ++ v :: after))).result = .ok g ∧
        (compile (",".intercalate (before ++ v' :: after))).result = .ok g) ∧
    (∀ (f : Forest) (es es' : List Expression), f.Reachable →
      ofExpressions es = ofExpressions es' → f.insertAll es = f.insertAll es') ∧
    ∀ (before after : List String) (v : String) (f : Forest),
      (∀ u ∈ before ++ after, ∃ g, (compile u).result = .ok g) → (compile v).result = .ok f →
      ∃ g, (compile (",".intercalate (before ++ f.render :: after))).result = .ok g ∧
        (compile (",".intercalate (before ++ v :: after))).result = .ok g := by
  refine ⟨fun before after v v' f hothers hv hv' => ?_, fun f es es' hf h => ?_,
    fun before after v f hothers hv => ?_⟩
  · exact compile_between_congr hothers hv hv'
  · exact insertAll_congr hf.distinct h
  · exact compile_between_congr hothers (compile_render_of_compile hv) hv

/-- Two values that differ in blanks, order and repetition, put between others that overlap them. -/
theorem merging_is_congruence_between_overlaps :
    (∃ g, (compile (",".intercalate (["a:b.y", "c"] ++ "a.x,a:b.z" :: ["a:d"]))).result = .ok g ∧
      (compile (",".intercalate (["a:b.y", "c"] ++ "a:b.z , a.x,a:b" :: ["a:d"]))).result = .ok g) ∧
    (tree "a" [] empty empty).insertAll [⟨"a.x", .last "a" (some "x")⟩] =
      (tree "a" [] empty empty).insertAll
        [⟨"a.x", .last "a" (some "x")⟩, ⟨"a", .last "a" none⟩] ∧
    (∃ g, (compile (",".intercalate (["a:b.y", "c"] ++
        (tree "a" ["x"] (tree "b" ["z"] empty empty) empty).render :: ["a:d"]))).result = .ok g ∧
      (compile (",".intercalate (["a:b.y", "c"] ++ "a.x,a:b.z" :: ["a:d"]))).result = .ok g) := by
  have hothers : ∀ u ∈ ["a:b.y", "c"] ++ ["a:d"], ∃ g, (compile u).result = .ok g := by
    intro u hu
    simp only [List.cons_append, List.nil_append, List.mem_cons, List.not_mem_nil, or_false] at hu
    rcases hu with rfl | rfl | rfl
    · exact ⟨tree "a" [] (tree "b" ["y"] empty empty) empty, by decide +kernel⟩
    · exact ⟨tree "c" [] empty empty, by decide +kernel⟩
    · exact ⟨tree "a" [] (tree "d" [] empty empty) empty, by decide +kernel⟩
  have hv : (compile "a.x,a:b.z").result =
      .ok (tree "a" ["x"] (tree "b" ["z"] empty empty) empty) := by decide +kernel
  have hv' : (compile "a:b.z , a.x,a:b").result =
      .ok (tree "a" ["x"] (tree "b" ["z"] empty empty) empty) := by decide +kernel
  have ha : (compile "a").result = .ok (tree "a" [] empty empty) := by decide +kernel
  have hes : ofExpressions [⟨"a.x", .last "a" (some "x")⟩] =
      ofExpressions [⟨"a.x", .last "a" (some "x")⟩, ⟨"a", .last "a" none⟩] := by decide
  exact ⟨merging_is_congruence.1 ["a:b.y", "c"] ["a:d"] _ _ _ hothers hv hv',
    merging_is_congruence.2.1 _ _ _ (reachable_of_compile ha) hes,
    merging_is_congruence.2.2 ["a:b.y", "c"] ["a:d"] _ _ hothers hv⟩

end Forest

/-!
## The canonical text is minimal

Between the commas of the canonical text of a compiled value stand different texts: the written forms of
those of its expressions that the forest needs. They come node by node in pre-order
(`map_render_canonical`), and no shorter list of expressions builds the forest
(`canonical_text_is_minimal`).
-/

/-! ### Nodes with their paths, in pre-order -/

/-- How a node is written whose path is given: with each of its fields in their order, or alone if it has
neither fields nor children. -/
def Node.texts (path : List String) (n : Node) : List String :=
  if n.select.isEmpty && n.children.isEmpty then [":".intercalate path]
  else n.select.map fun field => ":".intercalate path ++ "." ++ field

namespace Forest

/-- The nodes of a forest that stands below a path, each with its own path: a node before the nodes below it,
and these before its later siblings. -/
def preorderBelow (above : List String) : Forest → List (List String × Node)
  | empty => []
  | tree relation select children siblings =>
    (above ++ [relation], ⟨relation, select, children⟩) ::
      (children.preorderBelow (above ++ [relation]) ++ siblings.preorderBelow above)

def pieces (f : Forest) : List String := (f.render.toList.splitOn ',').map String.ofList

theorem map_snd_preorderBelow (f : Forest) (above : List String) :
    (f.preorderBelow above).map Prod.snd = f.preorder := by
  induction f generalizing above with
  | empty => rfl
  | tree relation select children siblings ihc ihs =>
    rw [preorderBelow, List.map_cons, List.map_append, ihc, ihs, preorder]

/-- The path of a node leads to it. -/
theorem at?_of_mem_preorderBelow {f : Forest} (h : f.Distinct) {above path : List String} {n : Node}
    (hmem : (path, n) ∈ f.preorderBelow above) : ∃ below, path = above ++ below ∧ f.at? below = some n := by
  induction f generalizing above with
  | empty => cases hmem
  | tree relation select children siblings ihc ihs =>
    obtain ⟨hnew, -, hchildren, hsiblings⟩ := h
    rw [preorderBelow, List.mem_cons, List.mem_append] at hmem
    rcases hmem with hmem | hmem | hmem
    · cases hmem
      exact ⟨[relation], rfl, at?_tree_root relation select children siblings⟩
    · obtain ⟨below, rfl, hbelow⟩ := ihc hchildren hmem
      refine ⟨relation :: below, by rw [List.append_assoc, List.singleton_append], ?_⟩
      rw [at?_tree_self _ _ _ _ (by rintro rfl; cases children <;> cases hbelow), hbelow]
    · obtain ⟨below, rfl, hbelow⟩ := ihs hsiblings hmem
      refine ⟨below, rfl, ?_⟩
      cases below with
      | nil => cases siblings <;> cases hbelow
      | cons name below =>
        have hne : relation ≠ name := fun e => hnew (e ▸ mem_names_of_at? hbelow)
        rw [at?_tree_of_ne _ _ _ hne, hbelow]

/-! ### How the canonical chains are written -/

/-- A chain that ends below a path is written as the longer path, and after a dot the field. -/
theorem render_last_after (above : List String) (relation : String) (field : Option String) :
    ((Chain.last relation field).after above).render = match field with
      | none => ":".intercalate (above ++ [relation])
      | some x => ":".intercalate (above ++ [relation]) ++ "." ++ x := by
  have habove : (above.map Segment.relation).map Segment.render = above := by
    simp [Function.comp_def, Segment.render]
  rw [Chain.render, Segment.renderAll, Chain.segments_after, List.map_append, habove]
  cases field with
  | none => rfl
  | some x =>
    apply String.toList_injective
    simp only [Chain.segments, Segment.render, List.map_cons, List.map_nil, String.toList_intercalate,
      String.toList_append, List.map_append, List.append_assoc]
    exact Text.intercalate_concat_append ':' (above.map String.toList) relation.toList _

theorem map_render_ownChains (above : List String) (relation : String) (select : List String)
    (children : Forest) : (ownChains relation select children).map (fun c => (c.after above).render) =
      (Node.mk relation select children).texts (above ++ [relation]) := by
  unfold ownChains Node.texts
  split
  · rw [List.map_singleton, render_last_after]
  · rw [List.map_map]
    exact List.map_congr_left fun field _ => render_last_after above relation (some field)

/-- **The canonical chains are written node by node, in pre-order.** -/
theorem map_render_canonical (f : Forest) (above : List String) :
    f.canonical.map (fun c => (c.after above).render) =
      (f.preorderBelow above).flatMap fun p => p.2.texts p.1 := by
  induction f generalizing above with
  | empty => rfl
  | tree relation select children siblings ihc ihs =>
    have hbelow : (children.canonical.map (Chain.step relation)).map (fun c => (c.after above).render) =
        children.canonical.map fun c => (c.after (above ++ [relation])).render := by
      rw [List.map_map]
      exact List.map_congr_left fun c _ => by rw [Chain.after_concat]; rfl
    rw [canonical_tree, treeChains, List.map_append, List.map_append, map_render_ownChains, hbelow, ihc, ihs,
      preorderBelow, List.flatMap_cons, List.flatMap_append, List.append_assoc]

/-! ### The pieces of the text -/

section Pieces
variable {f : Forest} (hne : f ≠ empty) (h : f.Distinct) (hcomma : f.Lacks ',')
include hne h hcomma

theorem pieces_eq : f.pieces = f.canonical.map Chain.render := by
  rw [pieces, splitOn_render hne h hcomma, List.map_map]
  exact List.map_congr_left fun c _ => String.ofList_toList

theorem nodup_pieces (heach : f.Each IsName IsField) : f.pieces.Nodup := by
  rw [pieces_eq hne h hcomma]
  refine (nodup_canonical h).map_on fun c hc d hd hcd => ?_
  exact Chain.render_inj ((each_canonical h).1 heach c hc) ((each_canonical h).1 heach d hd) hcd

end Pieces

/-- **The pieces are the written forms of the expressions that the forest needs.** -/
theorem mem_pieces_ofExpressions_iff {es : List Expression} (hne : ofExpressions es ≠ empty)
    (hcomma : (ofExpressions es).Lacks ',') {text : String} : text ∈ (ofExpressions es).pieces ↔
      ∃ e ∈ es, e.chain.render = text ∧ (e.chain.field ≠ none ∨
        ∃ n, (ofExpressions es).at? e.chain.relations = some n ∧ n.select = [] ∧ n.children = empty) := by
  rw [pieces_eq hne (distinct_ofExpressions es) hcomma, List.mem_map]
  constructor
  · rintro ⟨c, hc, rfl⟩
    obtain ⟨e, he, rfl, hkept⟩ := mem_canonical_ofExpressions_iff.1 hc
    exact ⟨e, he, rfl, hkept⟩
  · rintro ⟨e, he, rfl, hkept⟩
    exact ⟨e.chain, mem_canonical_ofExpressions_iff.2 ⟨e, he, rfl, hkept⟩, rfl⟩

/-! ### The least number of expressions -/

theorem length_canonical_le_of_eq {f : Forest} {es : List Expression} (h : ofExpressions es = f) :
    f.canonical.length ≤ es.length := by
  rw [← h]
  exact length_canonical_le es

/-- Expressions of the least number that builds a forest build another one when any of them is left out. -/
theorem ofExpressions_eraseIdx_ne {f : Forest} {parts : List Expression}
    (hlength : parts.length = f.canonical.length) {i : Nat} (hi : i < parts.length) :
    ofExpressions (parts.eraseIdx i) ≠ f := by
  intro hsame
  have hle := length_canonical_le_of_eq hsame
  rw [List.length_eraseIdx_of_lt hi] at hle
  omega

/-- **The canonical text is minimal.** Its pieces are different texts. They are the written forms of those
expressions of the value that have a field, and of the bare ones that lead to a node with neither fields nor
children. They come node by node in pre-order, the fields of a node in their order and before the nodes below
it. Read as expressions they build the forest, no shorter list of expressions does, and so they build another
one when any of them is left out. -/
theorem canonical_text_is_minimal {value : String} {f : Forest} {es : List Expression}
    (h : (compile value).result = .ok f) (hread : Expression.readAll value = .ok es) :
    f.pieces.Nodup ∧
    (∀ text, text ∈ f.pieces ↔ ∃ e ∈ es, e.chain.render = text ∧
      (e.chain.field ≠ none ∨
        ∃ n, f.at? e.chain.relations = some n ∧ n.select = [] ∧ n.children = empty)) ∧
    (f.pieces = ((f.preorderBelow []).flatMap fun p => p.2.texts p.1) ∧
      (f.preorderBelow []).map Prod.snd = f.preorder ∧
      ∀ p ∈ f.preorderBelow [], f.at? p.1 = some p.2) ∧
    ∃ parts, Expression.readAll f.render = .ok parts ∧
      parts.map (fun e => e.chain.render) = f.pieces ∧ ofExpressions parts = f ∧
      (∀ es' : List Expression, ofExpressions es' = f → parts.length ≤ es'.length) ∧
      ∀ i < parts.length, ofExpressions (parts.eraseIdx i) ≠ f := by
  have hne := ne_empty_of_compile h
  have hcomma := lacks_comma_of_compile h
  have hdistinct := (reachable_of_compile h).distinct
  have heach := (reachable_of_compile h).each
  have hpieces : f.pieces = f.canonical.map Chain.render := pieces_eq hne hdistinct hcomma
  obtain rfl : f = ofExpressions es := by
    obtain ⟨es', hread', hf⟩ := compile_eq_ok_iff.1 h
    rw [hread] at hread'
    cases hread'
    exact hf
  refine ⟨nodup_pieces hne hdistinct hcomma heach, fun text => mem_pieces_ofExpressions_iff hne hcomma,
    ⟨?_, map_snd_preorderBelow _ [], ?_⟩, _, readAll_render hne hdistinct heach hcomma, ?_, ?_,
    fun es' hes' => ?_, fun i hi => ?_⟩
  · rw [hpieces]
    exact map_render_canonical _ []
  · rintro ⟨path, n⟩ hmem
    obtain ⟨below, rfl, hbelow⟩ := at?_of_mem_preorderBelow hdistinct hmem
    exact hbelow
  · rw [hpieces, List.map_map]
    rfl
  · rw [ofExpressions_eq_insertChains, List.map_map]
    exact Eq.trans (by simp [Function.comp_def]) (insertChains_canonical hdistinct)
  · rw [List.length_map]
    exact length_canonical_le_of_eq hes'
  · exact ofExpressions_eraseIdx_ne (List.length_map _) hi

/-- A value that names a relation before it selects a field there, and repeats itself. -/
theorem canonical_text_is_minimal_after_repetition :
    (tree "a" [] (tree "b" ["x"] empty empty) (tree "c" [] empty empty)).pieces.Nodup ∧
    "a:b.x" ∈ (tree "a" [] (tree "b" ["x"] empty empty) (tree "c" [] empty empty)).pieces ∧
    ∀ es' : List Expression,
      ofExpressions es' = tree "a" [] (tree "b" ["x"] empty empty) (tree "c" [] empty empty) →
        2 ≤ es'.length := by
  have hcompile : (compile "a:b,c,a : b.x , c").result =
      .ok (tree "a" [] (tree "b" ["x"] empty empty) (tree "c" [] empty empty)) := by decide +kernel
  have hread : Expression.readAll "a:b,c,a : b.x , c" =
      .ok [⟨"a:b", .step "a" (.last "b" none)⟩, ⟨"c", .last "c" none⟩,
        ⟨"a : b.x", .step "a" (.last "b" (some "x"))⟩, ⟨"c", .last "c" none⟩] := by decide +kernel
  obtain ⟨hnodup, hmem, -, parts, -, hparts, -, hleast, -⟩ := canonical_text_is_minimal hcompile hread
  have hlength : parts.length = 2 := by
    rw [← List.length_map, hparts]
    decide +kernel
  refine ⟨hnodup, (hmem "a:b.x").2 ?_, hlength ▸ hleast⟩
  exact ⟨⟨"a : b.x", .step "a" (.last "b" (some "x"))⟩, by simp, rfl, Or.inl (by decide)⟩

end Forest

end PopulateQuery
