import PopulateQuery.Proofs.Forest.Paths
import PopulateQuery.Proofs.Results
import PopulateQuery.Proofs.Text
import PopulateQuery.Query

/-!
# What a value compiles to

A value compiles where all its pieces can be read, and what it compiles to is what the pieces say along every
path (`ofExpressions_along_paths`).
-/

namespace PopulateQuery

/-!
## When a value compiles

Compiling a value has a result where all its expressions can be read, and under options also pass
their checks (`Forest.compile_eq_ok_iff`, `Options.compile_eq_ok_iff`). The result is the forest of
these expressions. Values joined by commas are read one after the other
(`Expression.readAll_intercalate`).
-/

theorem Expression.readAll_eq_ok_iff {value : String} {es : List Expression} :
    readAll value = .ok es ↔
      List.Forall₂ (fun piece e => read (String.ofList piece) = .ok e) (value.toList.splitOn ',') es :=
  mapM_eq_ok_iff

theorem Expression.readAll_ne_nil {value : String} {es : List Expression}
    (h : readAll value = .ok es) : es ≠ [] := by
  have hlength := (readAll_eq_ok_iff.1 h).length_eq
  rintro rfl
  exact List.splitOn_ne_nil ',' value.toList (List.length_eq_zero_iff.1 hlength)

/-- Each expression of a value is read from a part of it that has no comma. -/
theorem Expression.exists_of_mem_readAll {value : String} {es : List Expression}
    (h : readAll value = .ok es) {e : Expression} (he : e ∈ es) :
    ∃ text, ',' ∉ text.toList ∧ read text = .ok e := by
  obtain ⟨piece, hpiece, hread⟩ := exists_of_mem_mapM h e he
  refine ⟨String.ofList piece, ?_, hread⟩
  rw [String.toList_ofList]
  exact (Text.mem_splitOn hpiece).1

/-- The pieces of values that are joined by commas are those of the values, in their order. -/
theorem Expression.splitOn_intercalate {values : List String} (h : values ≠ []) :
    (",".intercalate values).toList.splitOn ',' = values.flatMap (·.toList.splitOn ',') := by
  rw [String.toList_intercalate, ← List.flatMap_map String.toList]
  exact Text.splitOn_intercalate_eq_flatMap ',' (by simpa using h)

/-- Reading values that are joined by commas reads them one after the other. -/
theorem Expression.readAll_intercalate {values : List String} (h : values ≠ []) :
    readAll (",".intercalate values) = (values.mapM readAll).map List.flatten := by
  rw [readAll, splitOn_intercalate h, mapM_flatMap]
  rfl

namespace Forest

theorem merge_result (es : List Expression) : (merge es).result = .ok (ofExpressions es) := rfl

/-- Compiling reads the value, and merges what it has read. -/
theorem compile_eq (value : String) : compile value = match Expression.readAll value with
    | .ok es => merge es
    | .error e => Logged.refuse e := by
  have h : compile value = (Logged.ofExcept (Expression.readAll value) >>= merge) := rfl
  rw [h]
  cases Expression.readAll value with
  | ok es => exact Logged.ofExcept_ok_bind es merge
  | error e => exact Logged.ofExcept_error_bind e merge

theorem compile_eq_ok_iff {value : String} {f : Forest} :
    (compile value).result = .ok f ↔ ∃ es, Expression.readAll value = .ok es ∧ f = ofExpressions es := by
  rw [compile_eq]
  cases Expression.readAll value with
  | ok es =>
    simp only [merge_result, Except.ok.injEq]
    exact ⟨fun h => ⟨es, rfl, h.symm⟩, fun ⟨_, h, hf⟩ => by rw [h, hf]⟩
  | error e => simp [Logged.refuse]

theorem compile_eq_error_iff {value : String} {e : QueryError} :
    (compile value).result = .error e ↔ Expression.readAll value = .error e := by
  rw [compile_eq]
  cases Expression.readAll value with
  | ok es => simp [merge_result]
  | error e' => simp [Logged.refuse]

end Forest

namespace Options

/-- Compiling under options reads the value, checks all that it has read, and merges it. -/
theorem compile_eq (o : Options) (value : String) :
    o.compile value = match Expression.readAll value with
      | .error e => Logged.refuse e
      | .ok es => match o.checkAll es with
        | .error e => Logged.refuse e
        | .ok () => Forest.merge es := by
  have h : o.compile value = (Logged.ofExcept (Expression.readAll value) >>= fun es =>
      Logged.ofExcept (o.checkAll es) >>= fun _ => Forest.merge es) := rfl
  rw [h]
  cases Expression.readAll value with
  | error e => exact Logged.ofExcept_error_bind e _
  | ok es =>
    rw [Logged.ofExcept_ok_bind]
    simp only
    cases o.checkAll es with
    | error e => exact Logged.ofExcept_error_bind e _
    | ok u => exact Logged.ofExcept_ok_bind u _

theorem compile_eq_ok_iff {o : Options} {value : String} {f : Forest} :
    (o.compile value).result = .ok f ↔
      ∃ es, Expression.readAll value = .ok es ∧ o.checkAll es = .ok () ∧ f = .ofExpressions es := by
  rw [compile_eq]
  cases Expression.readAll value with
  | error e => simp [Logged.refuse]
  | ok es =>
    cases hcheck : o.checkAll es with
    | error e => simp [Logged.refuse, hcheck]
    | ok u => simp [Forest.merge_result, hcheck, eq_comm]

end Options

/-!
## The forest of a list of expressions

Merging starts from nothing and inserts one chain after the other. So the names below a path, and the
fields selected at a path, are those that the chains contribute there, in first-seen order
(`names_under_ofExpressions`, `selectAt_ofExpressions`), and a path leads to a node where some chain
starts with it (`exists_at?_ofExpressions`).
-/

namespace Forest

theorem names_under_ofExpressions (es : List Expression) (path : List String) :
    ((ofExpressions es).under path).names =
      (es.filterMap fun e => e.chain.nextAfter? path).eraseDups :=
  ofExpressions_firstSeen (fun f => (f.under path).names) (Chain.nextAfter? path)
    (names_under_insert path) (names_under_empty path) es

theorem selectAt_ofExpressions (es : List Expression) (path : List String) (name : String) :
    (ofExpressions es).selectAt (path ++ [name]) =
      (es.filterMap fun e => e.chain.fieldAt? (path ++ [name])).eraseDups :=
  ofExpressions_firstSeen (fun f => f.selectAt (path ++ [name]))
    (Chain.fieldAt? (path ++ [name])) (selectAt_insert path name) (selectAt_empty _) es

/-- A path that is not empty leads to a node where some chain starts with it. -/
theorem exists_at?_ofExpressions (es : List Expression) (path : List String) (name : String) :
    (∃ n, (ofExpressions es).at? (path ++ [name]) = some n) ↔
      ∃ e ∈ es, path ++ [name] <+: e.chain.relations := by
  rw [at?_concat, ← mem_names_iff, names_under_ofExpressions, List.mem_eraseDups, List.mem_filterMap]
  constructor
  · rintro ⟨e, he, hnext⟩
    exact ⟨e, he, Chain.nextAfter?_eq_some_iff.1 hnext⟩
  · rintro ⟨e, he, hp⟩
    exact ⟨e, he, Chain.nextAfter?_eq_some_iff.2 hp⟩

/-- **The merged forest is what the expressions say**, at every depth. The names at the top are the
heads, in first-seen order. A path leads to a node where some chain starts with it; that node selects
the fields of the chains that end there, and the names below it are those that follow it in the
chains that go on, both in first-seen order; its child of a name is what the path leads to with that
name behind. A value compiles where each piece between its commas can
be read, and gives the forest of what is read, in the order of the pieces. -/
theorem ofExpressions_along_paths :
    (∀ es : List Expression,
      (ofExpressions es).names = (es.map fun e => e.chain.head).eraseDups ∧
      ∀ (name : String) (path : List String),
        ((∃ n, (ofExpressions es).at? (name :: path) = some n) ↔
          ∃ e ∈ es, name :: path <+: e.chain.relations) ∧
        ∀ n, (ofExpressions es).at? (name :: path) = some n →
          n.select = (es.filterMap fun e => e.chain.fieldAt? (name :: path)).eraseDups ∧
          n.children.names = (es.filterMap fun e => e.chain.nextAfter? (name :: path)).eraseDups ∧
          ∀ child, n.child? child = (ofExpressions es).at? (name :: path ++ [child])) ∧
    ∀ (value : String) (f : Forest), (compile value).result = .ok f ↔
      ∃ es, List.Forall₂ (fun piece e => Expression.read (String.ofList piece) = .ok e)
        (value.toList.splitOn ',') es ∧ f = ofExpressions es := by
  refine ⟨fun es => ⟨?_, fun name path => ?_⟩, fun value f => ?_⟩
  · have hroot := names_under_ofExpressions es []
    have hhead : (fun e : Expression => e.chain.nextAfter? []) = fun e => some e.chain.head := by
      funext e
      rw [Chain.nextAfter?_eq, Chain.under?]
      rfl
    rwa [hhead, List.filterMap_eq_map'] at hroot
  · obtain ⟨init, last, hpath⟩ : ∃ init last, name :: path = init ++ [last] :=
      ⟨_, _, (List.dropLast_append_getLast (List.cons_ne_nil name path)).symm⟩
    rw [hpath]
    refine ⟨exists_at?_ofExpressions es init last, fun n hn => ⟨?_, ?_, fun child => ?_⟩⟩
    · have hselect := selectAt_ofExpressions es init last
      rwa [selectAt, hn] at hselect
    · rw [children_of_at? hn]
      exact names_under_ofExpressions es (init ++ [last])
    · exact (at?_concat_of_at? hn child).symm
  · rw [compile_eq_ok_iff]
    simp only [Expression.readAll_eq_ok_iff]

end Forest

end PopulateQuery
