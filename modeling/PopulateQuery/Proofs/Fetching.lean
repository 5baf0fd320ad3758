import PopulateQuery.Proofs.Descriptor.Restoring
import PopulateQuery.Proofs.Parameters

/-!
# What is fetched

A search compiles its parameters and fetches at most once: the compiled query, if there is one. What it
says it has fetched is what a fetcher sees that writes down every call (`find_recorded`). The descriptors of
a query are those of a forest that the options allow (`exists_forest_of_queryOf`), so no forbidden
relation and nothing beyond the depth limit is ever fetched, whatever the parameters are
(`only_allowed_queries_are_fetched`).

Filter compilers and fetchers may keep a state between their calls. `sortParametersWith` is the same loop with
a filter compiler that may do anything when it is asked, and `searchWith` the search in which a fetcher comes
after it. A filter compiler that does nothing but answer makes of them what `find` runs (`searchWith_pure`).

| here | there |
| --- | --- |
| `find` | `find` |
| `findWith` | the same, with a `DocumentFetcher` that keeps a state |
| `sortParametersWith`, `compileWith` | `parse_pairs`, with a `FilterCompiler` that keeps a state |
| `searchWith` | `find`, where both do |
-/

namespace PopulateQuery

/-! ## Queries that the options allow -/

namespace Options

/-- The end of `parse_pairs`: the query of a filter and of the populate values. -/
def queryOf (o : Options) (filter : Filter) (values : List String) : Logged Query :=
  if values.isEmpty then pure ⟨filter, []⟩
  else do
    let forest ← o.compile (",".intercalate values)
    pure ⟨filter, forest.descriptors⟩

variable {o : Options} {filter : Filter} {values : List String} {q : Query}

/-- The descriptors of a query are none at all, or those of a forest that the options allow. -/
theorem exists_forest_of_queryOf (h : (o.queryOf filter values).result = .ok q) :
    q.populate = [] ∨ ∃ f : Forest, o.Allows f ∧ q.populate = f.descriptors := by
  unfold queryOf at h
  by_cases hvalues : values.isEmpty
  · rw [if_pos hvalues] at h
    cases h
    exact Or.inl rfl
  · rw [if_neg hvalues, Logged.bind_eq_ok_iff] at h
    obtain ⟨f, hf, h⟩ := h
    cases h
    exact Or.inr ⟨f, (Options.compile_eq_ok_iff_allows.1 hf).2, rfl⟩

/-- No descriptor of a query has a forbidden path or is nested too deep. -/
theorem entries_allowed_of_queryOf (h : (o.queryOf filter values).result = .ok q)
    {entry : Nat × Descriptor} (hentry : entry ∈ Descriptor.entries q.populate) :
    entry.2.path ∉ o.blacklist ∧ ∀ limit, o.maxDepth = some limit → entry.1 ≤ limit := by
  rcases exists_forest_of_queryOf h with hnone | ⟨f, hallows, hf⟩
  · rw [hnone] at hentry
    cases hentry
  · rw [hf] at hentry
    obtain ⟨hlevel, n, hn, hpath⟩ := Forest.entries_descriptors hentry
    refine ⟨?_, fun limit hlimit => hlevel.trans (hallows.depth_le limit hlimit)⟩
    rw [hpath]
    exact hallows.not_forbidden n hn

end Options

namespace QueryCompiler

variable {α : Type} (c : QueryCompiler)

theorem compile_eq_queryOf (parameters : List (String × String)) :
    c.compile parameters =
      c.sortParameters [] parameters >>= fun sorted => c.options.queryOf sorted.1 sorted.2 := rfl

theorem exists_queryOf_of_compile {parameters : List (String × String)} {q : Query}
    (h : (c.compile parameters).result = .ok q) :
    ∃ filter values, (c.options.queryOf filter values).result = .ok q := by
  rw [compile_eq_queryOf, Logged.bind_eq_ok_iff] at h
  obtain ⟨sorted, -, h⟩ := h
  exact ⟨sorted.1, sorted.2, h⟩

/-! ## Fetchers -/

/-- A search with a fetcher that may do anything when it is called. -/
def findWith {m : Type → Type} [Monad m] (fetch : String → Query → m (Except QueryError α))
    (collection : String) (parameters : List (String × String)) : m (Except QueryError α) :=
  match (c.compile parameters).result with
  | .error e => pure (.error e)
  | .ok query => fetch collection query

/-- A fetcher that writes down each call before it answers. -/
def recording (fetch : Fetcher α) (collection : String) (query : Query) :
    StateM (List (String × Query)) (Except QueryError α) := do
  modify (· ++ [(collection, query)])
  pure (fetch collection query)

section Find
variable (fetch : Fetcher α) (collection : String) {parameters : List (String × String)}

theorem find_of_ok {q : Query} (h : (c.compile parameters).result = .ok q) :
    c.find fetch collection parameters =
      ⟨[(collection, q)], ⟨(c.compile parameters).events, fetch collection q⟩⟩ := by
  rw [find, h]

theorem find_of_error {e : QueryError} (h : (c.compile parameters).result = .error e) :
    c.find fetch collection parameters = ⟨[], ⟨(c.compile parameters).events, .error e⟩⟩ := by
  rw [find, h]

end Find

/-- **The fetches of a search are the calls that its fetcher sees.** -/
theorem find_recorded (fetch : Fetcher α) (collection : String) (parameters : List (String × String)) :
    (c.findWith (recording fetch) collection parameters).run [] =
      ((c.find fetch collection parameters).outcome.result,
        (c.find fetch collection parameters).fetches) := by
  cases h : (c.compile parameters).result with
  | error e =>
    rw [c.find_of_error fetch collection h, findWith, h]
    rfl
  | ok q =>
    rw [c.find_of_ok fetch collection h, findWith, h]
    rfl

theorem mem_fetches_iff (fetch : Fetcher α) (collection : String) (parameters : List (String × String))
    (call : String × Query) : call ∈ (c.find fetch collection parameters).fetches ↔
      call.1 = collection ∧ (c.compile parameters).result = .ok call.2 := by
  obtain ⟨collection', query⟩ := call
  cases h : (c.compile parameters).result with
  | error e => simp [c.find_of_error fetch collection h]
  | ok q => simp [c.find_of_ok fetch collection h, eq_comm]

theorem length_fetches_le (fetch : Fetcher α) (collection : String) (parameters : List (String × String)) :
    (c.find fetch collection parameters).fetches.length ≤ 1 := by
  cases h : (c.compile parameters).result with
  | error e => simp [c.find_of_error fetch collection h]
  | ok q => simp [c.find_of_ok fetch collection h]

end QueryCompiler

/-! ## Filter compilers and fetchers that keep state -/

/-- A filter compiler that may do anything when it is asked. -/
abbrev FilterCompilerIn (m : Type → Type) :=
  String → String → m (Except QueryError (Option (String × Json)))

/-- A fetcher that may do anything when it is called. -/
abbrev FetcherIn (m : Type → Type) (α : Type) := String → Query → m (Except QueryError α)

namespace Options

section Effects
variable {m : Type → Type} [Monad m] {α : Type}

/-- The loop of `parse_pairs`, with a filter compiler that may do anything when it is asked. -/
def sortParametersWith (o : Options) (ask : FilterCompilerIn m) (filter : Filter) :
    List (String × String) → ExceptT QueryError m (Filter × List String)
  | [] => pure (filter, [])
  | (key, value) :: rest =>
    if key = o.populateKey then do
      let (filter, values) ← o.sortParametersWith ask filter rest
      pure (filter, value :: values)
    else do
      match ← ExceptT.mk (ask key value) with
      | none => o.sortParametersWith ask filter rest
      | some (field, condition) => o.sortParametersWith ask (filter.set field condition) rest

def compileWith (o : Options) (ask : FilterCompilerIn m) (parameters : List (String × String)) :
    ExceptT QueryError m Query := do
  let (filter, values) ← o.sortParametersWith ask [] parameters
  (o.queryOf filter values).result

def searchWith (o : Options) (ask : FilterCompilerIn m) (fetch : FetcherIn m α) (collection : String)
    (parameters : List (String × String)) : ExceptT QueryError m α := do
  let query ← o.compileWith ask parameters
  ExceptT.mk (fetch collection query)

/-- Asks a filter compiler beside a list of calls, which it leaves alone. -/
def asking (ask : FilterCompilerIn m) : FilterCompilerIn (StateT (List (String × Query)) m) :=
  fun key value => StateT.lift (ask key value)

/-- Calls a fetcher and writes down the call. -/
def calling (fetch : FetcherIn m α) : FetcherIn (StateT (List (String × Query)) m) α :=
  fun collection query => do
    modify (· ++ [(collection, query)])
    StateT.lift (fetch collection query)

variable [LawfulMonad m] {o : Options} {ask : FilterCompilerIn m} {fetch : FetcherIn m α}

/-- The loop only asks, so it leaves the list of calls alone. -/
theorem sortParametersWith_asking (filter : Filter) (parameters : List (String × String))
    (calls : List (String × Query)) :
    (o.sortParametersWith (asking ask) filter parameters).run.run calls =
      (fun r => (r, calls)) <$> (o.sortParametersWith ask filter parameters).run := by
  induction parameters generalizing filter with
  | nil => simp [sortParametersWith]
  | cons p rest ih =>
    obtain ⟨key, value⟩ := p
    by_cases h : key = o.populateKey
    · simp only [sortParametersWith, if_pos h, ExceptT.run_bind, StateT.run_bind, ih, map_bind, bind_map_left]
      refine bind_congr fun r => ?_
      cases r <;> simp
    · simp only [sortParametersWith, if_neg h, asking, ExceptT.run_bind, StateT.run_bind, map_bind,
        ExceptT.run_mk, StateT.run_lift, bind_assoc, pure_bind]
      refine bind_congr fun r => ?_
      match r with
      | .error e => simp
      | .ok none => exact ih filter
      | .ok (some (field, condition)) => exact ih (filter.set field condition)

theorem compileWith_asking (parameters : List (String × String)) (calls : List (String × Query)) :
    (o.compileWith (asking ask) parameters).run.run calls =
      (fun r => (r, calls)) <$> (o.compileWith ask parameters).run := by
  simp only [compileWith, ExceptT.run_bind, StateT.run_bind, sortParametersWith_asking, map_bind,
    bind_map_left]
  refine bind_congr fun r => ?_
  cases r with
  | error e => simp
  | ok sorted => exact (map_pure (fun r => (r, calls)) _).symm

/-- **A search calls its fetcher once, with the compiled query, or not at all.** -/
theorem searchWith_calling (collection : String) (parameters : List (String × String)) :
    (o.searchWith (asking ask) (calling fetch) collection parameters).run.run [] =
      (o.compileWith ask parameters).run >>= fun
        | .error e => pure (.error e, [])
        | .ok q => (fun r => (r, [(collection, q)])) <$> fetch collection q := by
  simp only [searchWith, ExceptT.run_bind, StateT.run_bind, compileWith_asking, bind_map_left]
  refine bind_congr fun r => ?_
  cases r with
  | error e => rfl
  | ok q => simp [calling]

end Effects

section Pure
variable {m : Type → Type} [Monad m] [LawfulMonad m] {α : Type} (c : QueryCompiler)

/-- A filter compiler that does nothing but answer makes of the loop the one of `c`. -/
theorem sortParametersWith_pure (filter : Filter) (parameters : List (String × String)) :
    (c.options.sortParametersWith (fun key value => (pure (c.filter key value) : m _)) filter
      parameters).run = pure (c.sortParameters filter parameters).result := by
  induction parameters generalizing filter with
  | nil => rfl
  | cons p rest ih =>
    obtain ⟨key, value⟩ := p
    by_cases h : key = c.options.populateKey
    · rw [sortParametersWith, if_pos h, ExceptT.run_bind, ih, pure_bind,
        c.sortParameters_cons_self value rest filter h]
      cases hrest : (c.sortParameters filter rest).result with
      | error e => rw [Logged.bind_of_error hrest]
      | ok sorted =>
        rw [Logged.bind_of_ok hrest]
        rfl
    · rw [sortParametersWith, if_neg h, ExceptT.run_bind, ExceptT.run_mk, pure_bind,
        c.sortParameters_cons_of_ne value rest filter h]
      cases hentry : c.filter key value with
      | error e =>
        rw [c.addParameter_of_error hentry]
        rfl
      | ok entry =>
        rw [Logged.bind_of_ok (c.addParameter_of_ok hentry)]
        cases entry with
        | none => exact ih filter
        | some entry => exact ih (filter.set entry.1 entry.2)

theorem compileWith_pure (parameters : List (String × String)) :
    (c.options.compileWith (fun key value => (pure (c.filter key value) : m _)) parameters).run =
      pure (c.compile parameters).result := by
  rw [compileWith, ExceptT.run_bind, sortParametersWith_pure, pure_bind, c.compile_eq_queryOf]
  cases hsorted : (c.sortParameters [] parameters).result with
  | error e => rw [Logged.bind_of_error hsorted]
  | ok sorted =>
    rw [Logged.bind_of_ok hsorted]
    rfl

theorem searchWith_pure (fetch : FetcherIn m α) (collection : String)
    (parameters : List (String × String)) :
    (c.options.searchWith (fun key value => pure (c.filter key value)) fetch collection parameters).run =
      c.findWith fetch collection parameters := by
  rw [searchWith, ExceptT.run_bind, compileWith_pure, pure_bind, QueryCompiler.findWith]
  cases (c.compile parameters).result <;> rfl

end Pure

section State
variable {σ α : Type} {o : Options} {ask : FilterCompilerIn (StateM σ)} {fetch : FetcherIn (StateM σ) α}
  {parameters : List (String × String)} {s s' : σ}

theorem searchWith_of_error (collection : String) {e : QueryError}
    (h : (o.compileWith ask parameters).run.run s = (.error e, s')) :
    ((o.searchWith (asking ask) (calling fetch) collection parameters).run.run []).run s =
      ((.error e, []), s') := by
  rw [searchWith_calling, StateT.run_bind, h]
  rfl

theorem searchWith_of_ok (collection : String) {q : Query}
    (h : (o.compileWith ask parameters).run.run s = (.ok q, s')) :
    ((o.searchWith (asking ask) (calling fetch) collection parameters).run.run []).run s =
      ((((fetch collection q).run s').1, [(collection, q)]), ((fetch collection q).run s').2) := by
  rw [searchWith_calling, StateT.run_bind, h]
  rfl

/-- Whatever a filter compiler answers, a query ends in the populate values. -/
theorem exists_queryOf_of_compileWith {q : Query}
    (h : (o.compileWith ask parameters).run.run s = (.ok q, s')) :
    ∃ filter values, (o.queryOf filter values).result = .ok q := by
  rw [compileWith, ExceptT.run_bind, StateT.run_bind] at h
  cases hsorted : (o.sortParametersWith ask [] parameters).run.run s with
  | mk r s₁ =>
    rw [hsorted] at h
    cases r with
    | error e => cases h
    | ok sorted => exact ⟨sorted.1, sorted.2, congrArg Prod.fst h⟩

end State

end Options

namespace QueryCompiler

open Options

variable {α : Type}

/-- **Only allowed queries are fetched.** A search fetches at most once, and it does so exactly when its
parameters compile: from its collection, the query that they compile to. Then the answer is that of the
fetcher; otherwise it is the error, and nothing is fetched. A fetcher that writes down its calls sees just
these. No descriptor in a fetched query, at any depth, has a forbidden path, and none is nested deeper than
the limit.

The same is true where filter compiler and fetcher keep a state and answer as it stands, of which the search
above is the case that the filter compiler does nothing but answer: from each start, a search whose
parameters are refused calls no fetcher, and any other calls it once, for a query that the options allow. -/
theorem only_allowed_queries_are_fetched (c : QueryCompiler) (fetch : Fetcher α) (collection : String)
    (parameters : List (String × String)) :
    (c.find fetch collection parameters).fetches.length ≤ 1 ∧
    (∀ call, call ∈ (c.find fetch collection parameters).fetches ↔
      call.1 = collection ∧ (c.compile parameters).result = .ok call.2) ∧
    (∀ q, (c.compile parameters).result = .ok q →
      (c.find fetch collection parameters).fetches = [(collection, q)] ∧
      (c.find fetch collection parameters).outcome.result = fetch collection q) ∧
    (∀ e, (c.compile parameters).result = .error e →
      (c.find fetch collection parameters).fetches = [] ∧
      (c.find fetch collection parameters).outcome.result = .error e) ∧
    (c.findWith (recording fetch) collection parameters).run [] =
      ((c.find fetch collection parameters).outcome.result,
        (c.find fetch collection parameters).fetches) ∧
    (∀ call ∈ (c.find fetch collection parameters).fetches, ∀ entry ∈ Descriptor.entries call.2.populate,
      entry.2.path ∉ c.options.blacklist ∧
      ∀ limit, c.options.maxDepth = some limit → entry.1 ≤ limit) ∧
    (∀ (m : Type → Type) [Monad m] [LawfulMonad m] (fetch : FetcherIn m α),
      (c.options.searchWith (fun key value => pure (c.filter key value)) fetch collection parameters).run =
        c.findWith fetch collection parameters) ∧
    ∀ (σ : Type) (ask : FilterCompilerIn (StateM σ)) (fetch : FetcherIn (StateM σ) α) (s s' : σ),
      (∀ e, (c.options.compileWith ask parameters).run.run s = (.error e, s') →
        ((c.options.searchWith (asking ask) (calling fetch) collection parameters).run.run []).run s =
          ((.error e, []), s')) ∧
      ∀ q, (c.options.compileWith ask parameters).run.run s = (.ok q, s') →
        ((c.options.searchWith (asking ask) (calling fetch) collection parameters).run.run []).run s =
          ((((fetch collection q).run s').1, [(collection, q)]), ((fetch collection q).run s').2) ∧
        ∀ entry ∈ Descriptor.entries q.populate, entry.2.path ∉ c.options.blacklist ∧
          ∀ limit, c.options.maxDepth = some limit → entry.1 ≤ limit := by
  refine ⟨c.length_fetches_le fetch collection parameters, c.mem_fetches_iff fetch collection parameters,
    fun q h => ?_, fun e h => ?_, c.find_recorded fetch collection parameters, fun call hcall entry hentry => ?_,
    fun m _ _ fetch => searchWith_pure c fetch collection parameters,
    fun σ ask fetch s s' => ⟨fun e h => searchWith_of_error collection h,
      fun q h => ⟨searchWith_of_ok collection h, fun entry hentry => ?_⟩⟩⟩
  · rw [c.find_of_ok fetch collection h]
    exact ⟨rfl, rfl⟩
  · rw [c.find_of_error fetch collection h]
    exact ⟨rfl, rfl⟩
  · have hcompiled := ((c.mem_fetches_iff fetch collection parameters call).1 hcall).2
    obtain ⟨filter, values, hquery⟩ := c.exists_queryOf_of_compile hcompiled
    exact entries_allowed_of_queryOf hquery hentry
  · obtain ⟨filter, values, hquery⟩ := exists_queryOf_of_compileWith h
    exact entries_allowed_of_queryOf hquery hentry

/-- Numbers the parameters that it is asked about. -/
def numberingFilter : FilterCompilerIn (StateM Nat) := fun key _ => do
  let n ← get
  set (n + 1)
  pure (.ok (some (key, .string (toString n))))

/-- Two populate values around a condition, under a limit that the joined descriptors just keep; a value
that goes one relation deeper; and a filter compiler and a fetcher that count together. -/
theorem only_allowed_queries_are_fetched_at_the_limit :
    (find ⟨{ blacklist := ["secrets"], maxDepth := some 2 }, equalityFilter⟩ (fun _ q => .ok q.populate.length)
      "posts" [("populate", "a:b.x"), ("status", "on"), ("populate", "a.y")]).fetches =
        [("posts", ⟨[("status", .string "on")], [.mk "a" (some "y") (some [.mk "b" (some "x") none])]⟩)] ∧
    ("b" ∉ ["secrets"] ∧ ∀ limit, some 2 = some limit → 2 ≤ limit) ∧
    (find ⟨{ blacklist := ["secrets"], maxDepth := some 2 }, equalityFilter⟩ (fun _ q => .ok q.populate.length)
      "posts" [("populate", "a:b:c"), ("populate", "a.y")]).fetches = [] ∧
    ((searchWith { blacklist := ["secrets"], maxDepth := some 2 } (asking numberingFilter)
      (calling fun _ _ => do modify (· + 1); .ok <$> get) "posts"
      [("status", "on"), ("populate", "a.y"), ("kind", "b")]).run.run []).run 0 =
        ((.ok 3, [("posts", ⟨[("kind", .string "1"), ("status", .string "0")], [.mk "a" (some "y") none]⟩)]), 3) := by
  have hlimited := only_allowed_queries_are_fetched
    ⟨{ blacklist := ["secrets"], maxDepth := some 2 }, equalityFilter⟩ (fun _ q => .ok q.populate.length) "posts"
  have hfetched := (hlimited [("populate", "a:b.x"), ("status", "on"), ("populate", "a.y")]).2.2.1 _
    (compile_of_values _ (fun _ _ => ⟨_, rfl⟩) (by decide)
      (f := .tree "a" ["y"] (.tree "b" ["x"] .empty .empty) .empty) (by decide +kernel))
  have hrefused := (hlimited [("populate", "a:b:c"), ("populate", "a.y")]).2.2.2.1 _
    (compile_of_values_refused _ (fun _ _ => ⟨_, rfl⟩) (by decide)
      (e := .malformed "a:b:c" (.tooDeep 3 2)) (by decide +kernel))
  have hdeepest := (hlimited _).2.2.2.2.2.1 _ (hfetched.1 ▸ List.mem_singleton_self _)
    (2, .mk "b" (some "x") none) (by decide)
  have hnumbered := ((hlimited [("status", "on"), ("populate", "a.y"), ("kind", "b")]).2.2.2.2.2.2.2
    Nat numberingFilter (fun _ _ => do modify (· + 1); .ok <$> get) 0 2).2
  have hforest : (Options.compile { blacklist := ["secrets"], maxDepth := some 2 } "a.y").result =
      .ok (.tree "a" ["y"] .empty .empty) := by decide +kernel
  have hquery : (queryOf { blacklist := ["secrets"], maxDepth := some 2 }
      [("kind", .string "1"), ("status", .string "0")] ["a.y"]).result =
        .ok ⟨[("kind", .string "1"), ("status", .string "0")], [.mk "a" (some "y") none]⟩ :=
    congrArg Logged.result (Logged.bind_of_ok hforest _)
  exact ⟨hfetched.1, hdeepest, hrefused.1, (hnumbered _ (congrArg (·, 2) hquery)).1⟩

end QueryCompiler

end PopulateQuery
