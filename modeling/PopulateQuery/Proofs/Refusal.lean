import PopulateQuery.Proofs.Expression.Faults
import PopulateQuery.Proofs.Parameters
import PopulateQuery.Proofs.Restriction

/-!
# Refused values, alone and joined

What a value is refused for (`refused_for_leftmost_cause`), and how values that are joined by commas compile
(`joined_values_merge_one_by_one`).
-/

namespace PopulateQuery

/-!
## Why a value is refused

A value that cannot be read is refused for the leftmost expression that cannot, whatever the options say
of the others. A value that can be read is refused for the leftmost expression that is too long or names
a forbidden relation, and its length comes first (`Options.RefusedFor`). The text that an error names is
one of the expressions, and is refused for the same reason when it is compiled alone
(`Options.refused_for_leftmost_cause`).
-/

/-- The text of the expression that an error names, if it names one. -/
def QueryError.expression? : QueryError → Option String
  | .malformed expression _ => some expression
  | .misplacedField expression _ => some expression
  | _ => none

/-! ### Reading -/

namespace Expression

/-- Reading looks at the trimmed text only. -/
theorem read_congr {text text' : String} (h : Text.trim text.toList = Text.trim text'.toList) :
    read text = read text' := by
  simp only [read, h]

theorem read_word (cs : List Char) : read (word cs) = read (String.ofList cs) := by
  refine read_congr ?_
  rw [word, String.toList_ofList, String.toList_ofList, Text.trim_trim]

/-- An error of reading names the trimmed text. -/
theorem expression?_of_read {text : String} {e : QueryError} (h : read text = .error e) :
    e.expression? = some (word text.toList) := by
  by_cases hblank : Text.AllBlank text.toList
  · rw [read_of_allBlank hblank] at h
    cases h
    rw [word, Text.trim_eq_nil_iff.2 hblank]
    rfl
  · obtain ⟨before, part, after, -, -, hblames⟩ := (read_eq_error_iff hblank).1 h
    cases hblames <;> rfl

theorem readAll_of_not_mem {text : String} (h : ',' ∉ text.toList) :
    readAll text = (read text).map fun e => [e] := by
  rw [readAll, List.splitOn_eq_singleton h, List.mapM_cons, String.ofList_toList]
  cases read text <;> rfl

theorem readAll_eq_error_iff {value : String} {e : QueryError} :
    readAll value = .error e ↔
      FirstError (fun piece => read (String.ofList piece)) (value.toList.splitOn ',') e :=
  mapM_eq_error_iff

theorem not_mem_word_of_mem_splitOn {value : String} {piece : List Char}
    (h : piece ∈ value.toList.splitOn ',') : ',' ∉ (word piece).toList :=
  not_mem_word (Text.mem_splitOn h).1

end Expression

/-! ### Checking -/

namespace Options

/-- What the options ask of an expression: it is no longer than the limit, if there is one, and names no
forbidden relation. -/
structure Permits (o : Options) (x : Expression) : Prop where
  length_le : ∀ limit, o.maxDepth = some limit → x.chain.length ≤ limit
  not_forbidden : ∀ relation ∈ x.chain.relations, relation ∉ o.blacklist

/-- What the options refuse an expression for: its length, or else its first forbidden relation. -/
inductive RefusedFor (o : Options) (x : Expression) : QueryError → Prop where
  | tooDeep {limit : Nat} : o.maxDepth = some limit → limit < x.chain.length →
    RefusedFor o x (.malformed x.source (.tooDeep x.chain.length limit))
  | forbidden {before : List String} {relation : String} {after : List String} :
    (∀ limit, o.maxDepth = some limit → x.chain.length ≤ limit) →
    x.chain.relations = before ++ relation :: after → (∀ name ∈ before, name ∉ o.blacklist) →
    relation ∈ o.blacklist → RefusedFor o x (.forbidden relation)

variable {o : Options}

theorem limitBelow?_eq_some_iff {length limit : Nat} :
    o.limitBelow? length = some limit ↔ o.maxDepth = some limit ∧ limit < length := by
  simp [limitBelow?, Option.filter_eq_some_iff]

theorem find?_forbids_eq_some_iff {relations : List String} {relation : String} :
    relations.find? o.forbids = some relation ↔ relation ∈ o.blacklist ∧
      ∃ before after, relations = before ++ relation :: after ∧
        ∀ name ∈ before, name ∉ o.blacklist := by
  simp [List.find?_eq_some_iff_append, forbids]

theorem check_eq_ok_iff_permits {x : Expression} : o.check x = .ok () ↔ o.Permits x :=
  check_eq_ok_iff.trans ⟨fun h => ⟨h.1, h.2⟩, fun h => ⟨h.length_le, h.not_forbidden⟩⟩

theorem check_eq_error_iff {x : Expression} {e : QueryError} :
    o.check x = .error e ↔ o.RefusedFor x e := by
  constructor
  · intro h
    unfold check at h
    split at h
    · rename_i limit hlimit
      cases h
      obtain ⟨hmax, hlt⟩ := limitBelow?_eq_some_iff.1 hlimit
      exact .tooDeep hmax hlt
    · rename_i hlimit
      split at h
      · rename_i relation hfind
        cases h
        obtain ⟨hmem, before, after, hrelations, hbefore⟩ := find?_forbids_eq_some_iff.1 hfind
        exact .forbidden (limitBelow?_eq_none_iff.1 hlimit) hrelations hbefore hmem
      · cases h
  · intro h
    cases h with
    | tooDeep hmax hlt => simp only [check, limitBelow?_eq_some_iff.2 ⟨hmax, hlt⟩]
    | forbidden hlength hrelations hbefore hmem =>
      have hfind := find?_forbids_eq_some_iff.2 ⟨hmem, _, _, hrelations, hbefore⟩
      simp only [check, limitBelow?_eq_none_iff.2 hlength, hfind]

/-- If the options name an expression they refuse, they name it as it was written. -/
theorem RefusedFor.source_eq {x : Expression} {e : QueryError} {text : String}
    (h : o.RefusedFor x e) (htext : e.expression? = some text) : x.source = text := by
  cases h with
  | tooDeep => exact Option.some.inj htext
  | forbidden => cases htext

/-- The leftmost expression that the options refuse decides the error. -/
theorem checkAll_eq_error_iff {es : List Expression} {e : QueryError} :
    o.checkAll es = .error e ↔ ∃ before x after, es = before ++ x :: after ∧
      (∀ y ∈ before, o.Permits y) ∧ o.RefusedFor x e := by
  have hfirst : o.checkAll es = .error e ↔ FirstError o.check es e := by
    induction es with
    | nil => simp [checkAll, not_firstError_nil]
    | cons x es ih =>
      rw [firstError_cons, ← ih, checkAll]
      cases o.check x <;> simp [bind, Except.bind]
  have hpermits : ∀ y, (∃ u, o.check y = .ok u) ↔ o.Permits y := by
    intro y
    rw [← check_eq_ok_iff_permits]
    constructor
    · rintro ⟨u, h⟩
      exact h
    · intro h
      exact ⟨(), h⟩
  simp only [hfirst, FirstError, hpermits, check_eq_error_iff]

/-! ### Compiling -/

theorem compile_eq_error_iff {value : String} {e : QueryError} :
    (o.compile value).result = .error e ↔ Expression.readAll value = .error e ∨
      ∃ es, Expression.readAll value = .ok es ∧ o.checkAll es = .error e := by
  rw [compile_eq]
  cases Expression.readAll value with
  | error e' => simp [Logged.refuse]
  | ok es =>
    cases hcheck : o.checkAll es with
    | error e' => simp [Logged.refuse, hcheck]
    | ok u => simp [Forest.merge_result, hcheck]

/-- The leftmost piece that cannot be read decides the error, or else the leftmost expression that the
options refuse. -/
theorem compile_eq_error_iff_leftmost {value : String} {e : QueryError} :
    (o.compile value).result = .error e ↔
      FirstError (fun piece => Expression.read (String.ofList piece)) (value.toList.splitOn ',') e ∨
      ∃ es, Expression.readAll value = .ok es ∧ ∃ before x after, es = before ++ x :: after ∧
        (∀ y ∈ before, o.Permits y) ∧ o.RefusedFor x e := by
  rw [compile_eq_error_iff, Expression.readAll_eq_error_iff]
  simp only [checkAll_eq_error_iff]

/-- An expression that cannot be read is refused alone for the same reason. -/
theorem compile_word_of_unread {piece : List Char} (hcomma : ',' ∉ (word piece).toList) {e : QueryError}
    (h : Expression.read (String.ofList piece) = .error e) : (o.compile (word piece)).result = .error e := by
  rw [compile_eq_error_iff, Expression.readAll_of_not_mem hcomma, Expression.read_word, h]
  exact Or.inl rfl

/-- An expression that the options refuse is refused alone for the same reason. -/
theorem compile_word_of_refused {piece : List Char} (hcomma : ',' ∉ (word piece).toList)
    {x : Expression} (hread : Expression.read (String.ofList piece) = .ok x) {e : QueryError}
    (h : o.RefusedFor x e) : (o.compile (word piece)).result = .error e := by
  rw [compile_eq_error_iff, Expression.readAll_of_not_mem hcomma, Expression.read_word, hread]
  exact Or.inr ⟨[x], rfl, checkAll_eq_error_iff.2 ⟨[], x, [], rfl, by simp, h⟩⟩

/-- **One cause is chosen, and it can be reproduced.** A value is refused either for the leftmost piece
between its commas that cannot be read, or, if all can, for the leftmost expression that the options
refuse: for its length if it is too long, else for its first forbidden relation. If the error names an
expression, this is a piece of the value, trimmed, and compiling it alone gives the same error. -/
theorem refused_for_leftmost_cause (o : Options) (value : String) :
    (∀ e, (o.compile value).result = .error e ↔
      FirstError (fun piece => Expression.read (String.ofList piece)) (value.toList.splitOn ',') e ∨
      ∃ es, Expression.readAll value = .ok es ∧ ∃ before x after, es = before ++ x :: after ∧
        (∀ y ∈ before, o.Permits y) ∧ o.RefusedFor x e) ∧
    ∀ e text, (o.compile value).result = .error e → e.expression? = some text →
      (∃ piece ∈ value.toList.splitOn ',', text = word piece) ∧
      (o.compile text).result = .error e := by
  refine ⟨fun e => compile_eq_error_iff_leftmost, ?_⟩
  intro e text h htext
  rcases compile_eq_error_iff_leftmost.1 h with hunread | ⟨es, hes, before, x, after, rfl, -, hx⟩
  · obtain ⟨before, piece, after, hpieces, -, herror⟩ := hunread
    have hmem : piece ∈ value.toList.splitOn ',' := by simp [hpieces]
    have hcomma := Expression.not_mem_word_of_mem_splitOn hmem
    obtain rfl : word piece = text := by
      have hnamed := Expression.expression?_of_read herror
      rw [htext, String.toList_ofList] at hnamed
      exact (Option.some.inj hnamed).symm
    exact ⟨⟨piece, hmem, rfl⟩, compile_word_of_unread hcomma herror⟩
  · obtain ⟨piece, hmem, hread⟩ := exists_of_mem_mapM hes x (by simp)
    have hcomma := Expression.not_mem_word_of_mem_splitOn hmem
    obtain rfl : word piece = text := by
      have hsource := ((Expression.read_eq_ok_iff _ x).1 hread).1
      rw [String.toList_ofList] at hsource
      exact hsource.symm.trans (hx.source_eq htext)
    exact ⟨⟨piece, hmem, rfl⟩, compile_word_of_refused hcomma hread hx⟩

/-- An expression that is both too long and forbidden, between others; and one that cannot be read, behind
one that is forbidden and one that is too long. Each is refused alone as it is in the whole value. -/
theorem refused_for_leftmost_cause_in_competition :
    ((compile { blacklist := ["s"], maxDepth := some 2 } "ok, a:b:s ,s").result =
        .error (.malformed "a:b:s" (.tooDeep 3 2)) ∧
      (compile { blacklist := ["s"], maxDepth := some 2 } "a:b:s").result =
        .error (.malformed "a:b:s" (.tooDeep 3 2))) ∧
    (compile { blacklist := ["s"], maxDepth := some 2 } "s,a:b:c, a.b:c").result =
        .error (.misplacedField "a.b:c" "a.b") ∧
      (compile { blacklist := ["s"], maxDepth := some 2 } "a.b:c").result =
        .error (.misplacedField "a.b:c" "a.b") := by
  have hdeep : (compile { blacklist := ["s"], maxDepth := some 2 } "ok, a:b:s ,s").result =
      .error (.malformed "a:b:s" (.tooDeep 3 2)) := by decide +kernel
  have hunread : (compile { blacklist := ["s"], maxDepth := some 2 } "s,a:b:c, a.b:c").result =
      .error (.misplacedField "a.b:c" "a.b") := by decide +kernel
  exact ⟨⟨hdeep, ((refused_for_leftmost_cause _ _).2 _ _ hdeep rfl).2⟩,
    hunread, ((refused_for_leftmost_cause _ _).2 _ _ hunread rfl).2⟩

end Options

/-!
## Values joined by commas

The values of a repeated populate parameter are compiled as one text. Cutting the joined text gives the
pieces of the first value, then those of the second, and so on; no piece reaches over a comma that joins
two values. As every check is made on one expression, the joined values compile exactly where each of
them compiles alone (`Options.compile_join_eq_ok_iff`), and the forest is that of their expressions, value
after value. An empty value is an empty expression, so it refuses the whole query
(`joined_values_merge_one_by_one`).
-/

theorem Forest.ofExpressions_flatten (ess : List (List Expression)) :
    ofExpressions ess.flatten = ess.foldl insertAll empty := by
  have h : ∀ f : Forest, f.insertAll ess.flatten = ess.foldl insertAll f := by
    induction ess with
    | nil => exact fun f => rfl
    | cons es ess ih =>
      intro f
      rw [List.flatten_cons, insertAll_append, ih]
      rfl
  exact h empty

namespace Expression

theorem readAll_empty : readAll "" = .error (.malformed "" .emptyExpression) := by decide +kernel

/-- Where one of the joined values cannot be read, there is a leftmost piece of all that cannot. -/
theorem exists_firstError_of_readAll {values : List String}
    (h : ∃ v ∈ values, ∃ e, readAll v = .error e) :
    ∃ e, FirstError (fun piece => read (String.ofList piece))
      (values.flatMap (·.toList.splitOn ',')) e := by
  obtain ⟨v, hv, e, he⟩ := h
  obtain ⟨before, piece, after, hpieces, -, hpiece⟩ := readAll_eq_error_iff.1 he
  have hmem : piece ∈ v.toList.splitOn ',' := by simp [hpieces]
  exact exists_firstError ⟨piece, List.mem_flatMap.2 ⟨v, hv, hmem⟩, e, hpiece⟩

end Expression

namespace Options

variable {o : Options} {values : List String}

/-- Joined values compile to what their expressions make, if each value can be read and passes. -/
theorem compile_join_eq_ok_iff (h : values ≠ []) {f : Forest} :
    (o.compile (",".intercalate values)).result = .ok f ↔ ∃ ess,
      List.Forall₂ (fun v es => Expression.readAll v = .ok es) values ess ∧
      (∀ es ∈ ess, o.checkAll es = .ok ()) ∧ f = ess.foldl Forest.insertAll .empty := by
  rw [compile_eq_ok_iff, Expression.readAll_intercalate h]
  have hchecks : ∀ ess : List (List Expression),
      o.checkAll ess.flatten = .ok () ↔ ∀ es ∈ ess, o.checkAll es = .ok () := by
    intro ess
    simp only [checkAll_eq_ok_iff, List.mem_flatten]
    constructor
    · intro hall es hes e he
      exact hall e ⟨es, hes, he⟩
    · rintro hall e ⟨es, hes, he⟩
      exact hall es hes e he
  constructor
  · rintro ⟨es, hread, hcheck, rfl⟩
    obtain ⟨ess, hess, rfl⟩ := map_eq_ok_iff.1 hread
    exact ⟨ess, mapM_eq_ok_iff.1 hess, (hchecks ess).1 hcheck, Forest.ofExpressions_flatten ess⟩
  · rintro ⟨ess, hess, hcheck, rfl⟩
    exact ⟨ess.flatten, map_eq_ok_iff.2 ⟨ess, mapM_eq_ok_iff.2 hess, rfl⟩, (hchecks ess).2 hcheck,
      (Forest.ofExpressions_flatten ess).symm⟩

theorem exists_compile_join_iff (h : values ≠ []) :
    (∃ f, (o.compile (",".intercalate values)).result = .ok f) ↔
      ∀ v ∈ values, ∃ f, (o.compile v).result = .ok f := by
  have halone : ∀ v, (∃ f, (o.compile v).result = .ok f) ↔
      ∃ es, Expression.readAll v = .ok es ∧ o.checkAll es = .ok () := by
    intro v
    simp only [compile_eq_ok_iff]
    constructor
    · rintro ⟨_, es, hread, hcheck, -⟩
      exact ⟨es, hread, hcheck⟩
    · rintro ⟨es, hread, hcheck⟩
      exact ⟨_, es, hread, hcheck, rfl⟩
  simp only [compile_join_eq_ok_iff h, halone]
  constructor
  · rintro ⟨_, ess, hess, hcheck, -⟩
    -- the induction goes down to no values at all
    clear h
    induction hess with
    | nil => simp
    | cons hread _ ih =>
      rw [List.forall_mem_cons] at hcheck ⊢
      exact ⟨⟨_, hread, hcheck.1⟩, ih hcheck.2⟩
  · intro hall
    have hreads : ∀ v ∈ values, ∃ es, Expression.readAll v = .ok es := by
      intro v hv
      obtain ⟨es, hread, -⟩ := hall v hv
      exact ⟨es, hread⟩
    obtain ⟨ess, hess⟩ := exists_mapM_eq_ok_iff.2 hreads
    refine ⟨_, ess, mapM_eq_ok_iff.1 hess, fun es hes => ?_, rfl⟩
    obtain ⟨v, hv, hread⟩ := exists_of_mem_mapM hess es hes
    obtain ⟨es', hread', hcheck⟩ := hall v hv
    rw [hread] at hread'
    cases hread'
    exact hcheck

/-- The leftmost piece of all values that cannot be read decides the error. -/
theorem compile_join_of_firstError (h : values ≠ []) {e : QueryError}
    (he : FirstError (fun piece => Expression.read (String.ofList piece))
      (values.flatMap (·.toList.splitOn ',')) e) :
    (o.compile (",".intercalate values)).result = .error e := by
  rw [compile_eq_error_iff, Expression.readAll_eq_error_iff, Expression.splitOn_intercalate h]
  exact Or.inl he

end Options

/-- A query that is not refused has only populate values that compile alone. -/
theorem QueryCompiler.exists_compile_of_populateValues {c : QueryCompiler}
    {parameters : List (String × String)} {q : Query} (h : (c.compile parameters).result = .ok q) :
    ∀ v ∈ c.populateValues parameters, ∃ f, (c.options.compile v).result = .ok f := by
  intro v hv
  have hne : c.populateValues parameters ≠ [] := List.ne_nil_of_mem hv
  rw [compile_eq, Logged.bind_eq_ok_iff] at h
  obtain ⟨filter, -, h⟩ := h
  rw [if_neg (by simpa using hne), Logged.bind_eq_ok_iff] at h
  obtain ⟨f, hf, -⟩ := h
  exact (Options.exists_compile_join_iff hne).1 ⟨f, hf⟩ v hv

namespace Options

/-- **Joined values are compiled one by one.** The pieces of the joined text are those of the values, in
their order, and so are the expressions that are read from it. It compiles if and only if each value
compiles alone, and then to the forest that the expressions of the first value make, then those of the
second, and so on. Where some value cannot be read, the leftmost piece of all that cannot be read decides
the error, whatever the options say of the others. So a query with an empty populate value is refused, as
is one with any other value that is refused alone. -/
theorem joined_values_merge_one_by_one :
    (∀ (o : Options) (values : List String), values ≠ [] →
      (",".intercalate values).toList.splitOn ',' = values.flatMap (·.toList.splitOn ',') ∧
      Expression.readAll (",".intercalate values) =
        (values.mapM Expression.readAll).map List.flatten ∧
      ((∃ f, (o.compile (",".intercalate values)).result = .ok f) ↔
        ∀ v ∈ values, ∃ f, (o.compile v).result = .ok f) ∧
      (∀ f, (o.compile (",".intercalate values)).result = .ok f → ∃ ess,
        List.Forall₂ (fun v es => Expression.readAll v = .ok es) values ess ∧
        f = ess.foldl Forest.insertAll .empty) ∧
      ((∃ v ∈ values, ∃ e, Expression.readAll v = .error e) → ∃ e,
        FirstError (fun piece => Expression.read (String.ofList piece))
          (values.flatMap (·.toList.splitOn ',')) e ∧
        (o.compile (",".intercalate values)).result = .error e)) ∧
    ∀ (c : QueryCompiler) (parameters : List (String × String)),
      (∀ v ∈ c.populateValues parameters, ∀ e, (c.options.compile v).result = .error e →
        ∃ e', (c.compile parameters).result = .error e') ∧
      ("" ∈ c.populateValues parameters → ∃ e, (c.compile parameters).result = .error e) := by
  constructor
  · intro o values h
    refine ⟨Expression.splitOn_intercalate h, Expression.readAll_intercalate h,
      exists_compile_join_iff h, ?_, ?_⟩
    · intro f hf
      obtain ⟨ess, hess, -, hf⟩ := (compile_join_eq_ok_iff h).1 hf
      exact ⟨ess, hess, hf⟩
    · intro hunread
      obtain ⟨e, he⟩ := Expression.exists_firstError_of_readAll hunread
      exact ⟨e, he, compile_join_of_firstError h he⟩
  · intro c parameters
    have hrefused : ∀ v ∈ c.populateValues parameters, ∀ e, (c.options.compile v).result = .error e →
        ∃ e', (c.compile parameters).result = .error e' := by
      intro v hv e he
      cases hq : (c.compile parameters).result with
      | error e' => exact ⟨e', rfl⟩
      | ok q =>
        obtain ⟨f, hf⟩ := QueryCompiler.exists_compile_of_populateValues hq v hv
        rw [he] at hf
        cases hf
    have hempty : (c.options.compile "").result = .error (.malformed "" .emptyExpression) :=
      compile_eq_error_iff.2 (Or.inl Expression.readAll_empty)
    exact ⟨hrefused, fun hv => hrefused "" hv _ hempty⟩

/-- Three values of which the first is too deep, the second forbidden, and the third cannot be read; two
values that end and begin inside one relation; and a query with an empty value. -/
theorem joined_values_merge_one_by_one_or_not :
    (∃ e, FirstError (fun piece => Expression.read (String.ofList piece))
        (["a:b", "s,c", "d::e,"].flatMap (·.toList.splitOn ',')) e ∧
      (compile { blacklist := ["s"], maxDepth := some 1 }
        (",".intercalate ["a:b", "s,c", "d::e,"])).result = .error e) ∧
    (∃ ess, List.Forall₂ (fun v es => Expression.readAll v = .ok es) ["a:b.x,c", "a:b.y"] ess ∧
      .tree "a" [] (.tree "b" ["x", "y"] .empty .empty) (.tree "c" [] .empty .empty) =
        ess.foldl Forest.insertAll .empty) ∧
    ∃ e, (QueryCompiler.compile {} [("populate", "a"), ("populate", "")]).result = .error e := by
  have hunread : Expression.readAll "d::e," = .error (.malformed "d::e" (.emptyRelation 2)) := by
    decide +kernel
  have hjoined : (compile {} (",".intercalate ["a:b.x,c", "a:b.y"])).result =
      .ok (.tree "a" [] (.tree "b" ["x", "y"] .empty .empty) (.tree "c" [] .empty .empty)) := by
    decide +kernel
  refine ⟨?_, ?_, (joined_values_merge_one_by_one.2 {} _).2 (by decide)⟩
  · exact (joined_values_merge_one_by_one.1 _ _ (by decide)).2.2.2.2 ⟨"d::e,", by decide, _, hunread⟩
  · exact (joined_values_merge_one_by_one.1 {} _ (by decide)).2.2.2.1 _ hjoined

end Options

end PopulateQuery
